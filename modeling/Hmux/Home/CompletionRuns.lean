import Hmux.Home.CompletionTracker

namespace Hmux.Home.CompletionTracker

open Lib

/-!
# Runs of the completion tracker

The tracker observes files that grow, in any order and with any failures, and forgets what it cannot
read or what a session is no longer bound to.

* `due` — the completions that stand in some lines, and whether a task runs after them;
* `observeOne_ok`, `observeItem_ok` — what one observation does;
* `Handed.run` — every completion that was handed out stands before the cursor of its file;
* `handed_out_once` — no completion is handed out twice.

Files are identified by their device and inode, and a path may lead to another file at any time.
So what was handed out is remembered with the file and the line feed that ends its line; a cursor
stands behind every line feed of its file that something was handed out for, and a reading that
starts before it hands out nothing.
-/

variable {L : Libraries} {opened : Files} {cursors cursors' : Tracker} {item : Observation}
  {binding : Binding} {info : Record} {emitted : ℕ} {fate : Fate} {cursor : Cursor}
  {found : List Completion} {armed : Bool}
  {lines : List (List UInt8 × ℕ)}

/-! ### The lines of one reading

The loop over the lines keeps whether a task runs; what it hands out is a function of the lines
alone, up to the place that is left in the list. -/

variable (L) in
/-- Whether a task runs after some lines, and the tasks that are completed in them. -/
def due : Bool → List (List UInt8 × ℕ) → Bool × List ((List UInt8 × ℕ) × String)
  | armed, [] => (armed, [])
  | armed, line :: lines =>
    match event L line.1 with
    | none => due armed lines
    | some (.taskStarted, _) => due true lines
    | some (.taskComplete, timestamp) =>
      ((due false lines).1,
        (if armed then (timestamp.map fun completedAt => (line, completedAt)).toList else []) ++
          (due false lines).2)

/-- A completion that is handed out, before its id is hashed. -/
structure Mark where
  identity : SessionIdentity
  recordId : String
  offset : ℕ
  completedAt : String

variable (L) in
/-- What is handed out. -/
def Mark.completion (m : Mark) : Completion :=
  ⟨m.identity, eventId L m.identity m.recordId m.offset, m.completedAt⟩

/-- What is hashed. -/
def Mark.text (m : Mark) : String := eventText m.identity m.recordId m.offset

/-- The mark of a line. -/
def markOf (identity : SessionIdentity) (recordId : String)
    (e : (List UInt8 × ℕ) × String) : Mark :=
  ⟨identity, recordId, e.1.2, e.2⟩

/-- A line without an event is passed over. -/
theorem due_cons_none {line : List UInt8 × ℕ} (h : event L line.1 = none) :
    due L armed (line :: lines) = due L armed lines := by
  rw [due, h]

/-- A task that starts is running from then on. -/
theorem due_cons_started {line : List UInt8 × ℕ} {timestamp : Option String}
    (h : event L line.1 = some (.taskStarted, timestamp)) :
    due L armed (line :: lines) = due L true lines := by
  rw [due, h]

/-- A task that completes is due if it was running. -/
theorem due_cons_complete {line : List UInt8 × ℕ} {timestamp : Option String}
    (h : event L line.1 = some (.taskComplete, timestamp)) :
    due L armed (line :: lines) = ((due L false lines).1,
      (if armed then (timestamp.map fun completedAt => (line, completedAt)).toList else []) ++
        (due L false lines).2) := by
  rw [due, h]

/-- The closure of `observe_one` hands out what is due, up to the limit. -/
theorem foldl_visit (same : Bool) (remaining : ℕ) (identity : SessionIdentity) (recordId : String)
    (seen : Seen) : lines.foldl (visit L same remaining identity recordId) seen =
      ⟨(due L seen.armed lines).1, seen.found ++
        if same then (((due L seen.armed lines).2.take (remaining - seen.found.length)).map
          fun e => (markOf identity recordId e).completion L) else []⟩ := by
  induction lines generalizing seen with
  | nil => cases same <;> simp [due]
  | cons line lines ih =>
    rw [List.foldl_cons, ih]
    cases hevent : event L line.1 with
    | none =>
      rw [due_cons_none hevent, visit, hevent]
    | some e =>
      obtain ⟨kind, timestamp⟩ := e
      cases kind with
      | taskStarted =>
        rw [due_cons_started hevent, visit, hevent]
      | taskComplete =>
        rw [due_cons_complete hevent, visit, hevent]
        obtain ⟨armed, found⟩ := seen
        dsimp only
        cases same with
        | false => simp
        | true =>
          cases armed with
          | false => simp
          | true =>
            cases timestamp with
            | none => simp
            | some completedAt =>
              by_cases hroom : found.length < remaining
              · obtain ⟨k, hk⟩ := Nat.exists_eq_succ_of_ne_zero
                  (show remaining - found.length ≠ 0 by omega)
                have hnext : remaining - (found.length + 1) = k := by omega
                simp [hroom, hk, hnext, markOf, Mark.completion]
              · have hnone : remaining - found.length = 0 := by omega
                simp [hroom, hnone]

/-- What is due stands in the lines, in their order. -/
theorem due_sublist : ((due L armed lines).2.map Prod.fst).Sublist lines := by
  induction lines generalizing armed with
  | nil => exact List.Sublist.refl _
  | cons line lines ih =>
    cases hevent : event L line.1 with
    | none =>
      rw [due_cons_none hevent]
      exact ih.cons _
    | some e =>
      obtain ⟨kind, timestamp⟩ := e
      cases kind with
      | taskStarted =>
        rw [due_cons_started hevent]
        exact ih.cons _
      | taskComplete =>
        rw [due_cons_complete hevent, List.map_append]
        cases armed with
        | false => exact ih.cons _
        | true =>
          cases timestamp with
          | none => exact ih.cons _
          | some completedAt => exact ih.cons_cons _

/-! ### One session

A session whose cursor is not that of the file it finds is read as if for the first time, and then
nothing is handed out. -/

variable (L cursors item binding info emitted) in
/-- What one reading of a file makes of a session: a first look, or what came since the last one. -/
inductive Observed (cursor : Cursor) : List Completion → Prop
  | first (lines : List (List UInt8 × ℕ)) :
      scan info.bytes (info.bytes.length - tailMax) true = .ok (cursor.offset, lines) →
      cursor.armed = (due L false lines).1 → Observed cursor []
  | next (old : Cursor) (lines : List (List UInt8 × ℕ)) :
      cursors.get? item.identity = some old → old.same L item binding info = true →
      scan info.bytes old.offset false = .ok (cursor.offset, lines) →
      cursor.armed = (due L old.armed lines).1 →
      Observed cursor (((due L old.armed lines).2.take (emittedMax - emitted)).map fun e =>
        (markOf item.identity binding.recordId e).completion L)

/-- The cursor is of this file. -/
structure Cursor.Of (cursor : Cursor) (item : Observation) (binding : Binding) (info : Record) :
    Prop where
  ownership : cursor.ownership = item.ownership
  root : cursor.root = binding.root
  path : cursor.path = binding.path
  recordId : cursor.recordId = binding.recordId
  dev : cursor.dev = info.dev
  ino : cursor.ino = info.ino

/-- A cursor that is taken up again is one of this file. -/
theorem Cursor.of_same (h : cursor.same L item binding info = true) :
    cursor.Of item binding info := by
  unfold Cursor.same at h
  simp only [Bool.and_eq_true, beq_iff_eq] at h
  obtain ⟨⟨⟨⟨⟨⟨⟨⟨h1, h2⟩, h3⟩, h4⟩, h5⟩, h6⟩, -⟩, -⟩, -⟩ := h
  exact ⟨h1, h2, h3, h4, h5, h6⟩

/-- **`observe_one`** opens the file of the binding and leaves a cursor of it. -/
theorem observeOne_ok
    (h : observeOne L opened cursors item binding emitted fate = .ok (cursor, found)) :
    ∃ info, opened binding.root binding.path = some info ∧ cursor.Of item binding info ∧
      anchor L info.bytes cursor.offset = (cursor.anchor, cursor.anchorLen) ∧
      Observed L cursors item binding info emitted cursor found := by
  unfold observeOne at h
  split at h
  · cases h
  · cases hfile : opened binding.root binding.path with
    | none =>
      rw [hfile] at h
      cases h
    | some info =>
      rw [hfile] at h
      refine ⟨info, rfl, ?_⟩
      dsimp only at h
      -- the cursor counts only while it is of the same file
      generalize hprevious : (cursors.get? item.identity).filter
        (fun cursor => cursor.same L item binding info) = previous at h
      split at h
      · cases h
      · cases h
      · split at h
        · cases h
        · next offset lines hscan =>
          rw [foldl_visit] at h
          injection h with h
          injection h with hcursor hfound
          subst hcursor
          refine ⟨⟨rfl, rfl, rfl, rfl, rfl, rfl⟩, rfl, ?_⟩
          subst hfound
          -- a first reading hands nothing out, a later one what it found after the cursor
          cases previous with
          | none =>
            rw [Option.map_none, Option.getD_none, Option.isNone_none] at hscan
            simp only [Option.isSome_none, Bool.false_eq_true, if_false, List.append_nil]
            exact .first lines hscan rfl
          | some old =>
            obtain ⟨hold, hsame⟩ := Option.filter_eq_some_iff.mp hprevious
            rw [Option.map_some, Option.getD_some, Option.isNone_some] at hscan
            simp only [Option.isSome_some, if_true, List.nil_append, List.length_nil, Nat.sub_zero]
            exact .next old lines hold hsame hscan rfl

/-- What the observation of a session leaves: its cursor is dropped, or it is new. -/
theorem observeItem_ok {inner inner' : Inner} {item : Item}
    (h : observeItem L inner item = .ok inner') :
    ((∀ key, inner'.cursors.get? key =
        if key = item.observation.identity then none else inner.cursors.get? key) ∧
      inner'.output = inner.output) ∨
    ∃ binding info cursor found, validateSessionId item.observation.identity.id = true ∧
      item.observation.binding = some binding ∧
      item.files binding.root binding.path = some info ∧ cursor.Of item.observation binding info ∧
      anchor L info.bytes cursor.offset = (cursor.anchor, cursor.anchorLen) ∧
      Observed L inner.cursors item.observation binding info inner.output.length cursor found ∧
      inner'.cursors = inner.cursors.insert item.observation.identity cursor ∧
      inner'.output = inner.output ++ found := by
  obtain ⟨item, files, fate⟩ := item
  -- an observation that fails for its file drops the cursor
  have hdrop : ∀ key, (inner.drop item.identity).cursors.get? key =
      (if key = item.identity then none else inner.cursors.get? key) ∧
      (inner.drop item.identity).output = inner.output := by
    intro key
    unfold Inner.drop
    split
    · next hold =>
      refine ⟨?_, rfl⟩
      by_cases hkey : key = item.identity
      · rw [if_pos hkey, hkey, hold]
      · rw [if_neg hkey]
    · exact ⟨Table.get?_erase, rfl⟩
  unfold observeItem at h
  dsimp only at h ⊢
  split at h
  · cases h
  · split at h
    · cases h
      exact .inl ⟨fun key => (hdrop key).1, (hdrop item.identity).2⟩
    · next hvalid =>
      split at h
      · cases h
        exact .inl ⟨fun key => (hdrop key).1, (hdrop item.identity).2⟩
      · next binding hbinding =>
        split at h
        -- the file is the one of the binding
        · next cursor found hone =>
          split at h
          · cases h
          · cases h
            right
            obtain ⟨info, hfile, hof, hanchor, hobserved⟩ := observeOne_ok hone
            rw [Bool.or_eq_true, not_or, Bool.not_eq_true, Bool.not_eq_false'] at hvalid
            exact ⟨binding, info, cursor, found, hvalid.1,
              (Option.filter_eq_some_iff.mp hbinding).1, hfile, hof, hanchor, hobserved, rfl, rfl⟩
        · cases h
          exact .inl ⟨fun key => (hdrop key).1, (hdrop item.identity).2⟩
        · cases h

/-! ### Runs

A run is any sequence of observations, of sessions that are forgotten and of trackers that are
cleared. -/

/-- The calls of a tracker. -/
inductive Call
  | observe (items : List Item) (first last : Bool)
  | forget (identity : SessionIdentity)
  | clear

/-- The sessions of an observation. -/
def Call.items : Call → List Item
  | .observe items _ _ => items
  | _ => []

variable (L) in
/-- One call: what it hands out, and the tracker after it. -/
def step (cursors : Tracker) : Call → Except Error (List Completion) × Tracker
  | .observe items first last => observe L cursors items first last
  | .forget identity => (.ok [], forget cursors identity)
  | .clear => (.ok [], clear cursors)

/-- One call of a run. -/
structure Entry where
  before : Tracker
  call : Call
  reply : Except Error (List Completion)

/-- What a call handed out. -/
def Entry.completions (e : Entry) : List Completion :=
  match e.reply with
  | .ok output => output
  | .error _ => []

variable (L) in
/-- A run from an empty tracker, the newest call first. -/
inductive Run : List Entry → Tracker → Prop
  | new : Run [] .empty
  | step (history : List Entry) (cursors : Tracker) (call : Call) : Run history cursors →
      Run (⟨cursors, call, (step L cursors call).1⟩ :: history) (step L cursors call).2

/-- Everything that was handed out, in its order. -/
def completions : List Entry → List Completion
  | [] => []
  | e :: history => completions history ++ e.completions

/-- Files only grow at their ends, whatever their paths are. -/
def Files.Grows (earlier later : Files) : Prop :=
  ∀ root path root' path' r r', earlier root path = some r → later root' path' = some r' →
    r.dev = r'.dev → r.ino = r'.ino → r.bytes <+: r'.bytes

/-- The files as the sessions of an observation find them, the newest first. -/
def seenBy (items : List Item) : List Files := (items.map Item.files).reverse

/-- The files as a run finds them, the newest first. -/
def views : List Entry → List Files
  | [] => []
  | e :: history => seenBy e.call.items ++ views history

/-- The files only grow from one look to the next. -/
def Growing (seen : List Files) : Prop :=
  (∀ files ∈ seen, files.Grows files) ∧ seen.Pairwise fun later earlier => earlier.Grows later

/-- A line feed was seen in a file. -/
def Passed (seen : List Files) (dev ino n : ℕ) : Prop :=
  ∃ files ∈ seen, ∃ root path r, files root path = some r ∧ r.dev = dev ∧ r.ino = ino ∧
    r.bytes[n]? = some 10

/-- A record id was bound to a file. -/
def NamedBy (history : List Entry) (recordId : String) (dev ino : ℕ) : Prop :=
  ∃ e ∈ history, ∃ item ∈ e.call.items, ∃ binding, item.observation.binding = some binding ∧
    binding.recordId = recordId ∧ ∃ r, item.files binding.root binding.path = some r ∧
      r.dev = dev ∧ r.ino = ino

/-- A record id is that of one file. -/
def NamesFiles (history : List Entry) : Prop :=
  ∀ recordId dev ino dev' ino', NamedBy history recordId dev ino →
    NamedBy history recordId dev' ino' → dev = dev' ∧ ino = ino'

/-- The first item of a call is looked at first. -/
theorem seenBy_cons {item : Item} {items : List Item} {seen : List Files} :
    seenBy (item :: items) ++ seen = seenBy items ++ item.files :: seen := by
  unfold seenBy
  rw [List.map_cons, List.reverse_cons, List.append_assoc]
  rfl

/-- The files of the past grew as well. -/
theorem Growing.of_append {new seen : List Files} (h : Growing (new ++ seen)) : Growing seen :=
  ⟨fun files hfiles => h.1 files (List.mem_append_right _ hfiles),
    (List.pairwise_append.mp h.2).2.1⟩

/-- What was passed stays passed. -/
theorem Passed.append {new seen : List Files} {dev ino n : ℕ} (h : Passed seen dev ino n) :
    Passed (new ++ seen) dev ino n := by
  obtain ⟨files, hfiles, hrest⟩ := h
  exact ⟨files, List.mem_append_right _ hfiles, hrest⟩

/-- What was seen of a file is how it starts now. -/
theorem Growing.prefix {files earlier : Files} {seen : List Files} (h : Growing (files :: seen))
    (hearlier : earlier ∈ files :: seen) {root path root' path' : Path} {r r' : Record}
    (hr' : earlier root' path' = some r') (hr : files root path = some r) (hdev : r'.dev = r.dev)
    (hino : r'.ino = r.ino) : r'.bytes <+: r.bytes := by
  rcases List.mem_cons.mp hearlier with rfl | hold
  · exact h.1 earlier List.mem_cons_self root' path' root path r' r hr' hr hdev hino
  · exact (List.pairwise_cons.mp h.2).1 earlier hold root' path' root path r' r hr' hr hdev hino

/-- A line feed that was seen is still there. -/
theorem Growing.passed {files : Files} {seen : List Files} (h : Growing (files :: seen))
    {root path : Path} {r : Record} {n : ℕ} (hr : files root path = some r)
    (hn : Passed (files :: seen) r.dev r.ino n) : r.bytes[n]? = some 10 := by
  obtain ⟨earlier, hearlier, root', path', r', hr', hdev, hino, hfeed⟩ := hn
  obtain ⟨more, hmore⟩ := h.prefix hearlier hr' hr hdev hino
  rw [← hmore, List.getElem?_append_left (List.getElem?_eq_some_iff.mp hfeed).1]
  exact hfeed

/-- An observation that succeeds hands out what it returns. -/
theorem Entry.completions_ok {e : Entry} {output : List Completion} (h : e.reply = .ok output) :
    e.completions = output := by
  unfold Entry.completions
  rw [h]

/-- An observation that fails hands out nothing. -/
theorem Entry.completions_error {e : Entry} {error : Error} (h : e.reply = .error error) :
    e.completions = [] := by
  unfold Entry.completions
  rw [h]

/-! ### Nothing is handed out twice

The cursors and what was handed out are followed together, first through the sessions of one
observation and then through a run. -/

/-- A mark with its file and the line feed that ends it. -/
structure Emission extends Mark where
  dev : ℕ
  ino : ℕ
  finish : ℕ

/-- The emission of a line. -/
def emissionOf (identity : SessionIdentity) (recordId : String) (info : Record)
    (e : (List UInt8 × ℕ) × String) : Emission :=
  { toMark := markOf identity recordId e, dev := info.dev, ino := info.ino,
    finish := e.1.2 + e.1.1.length }

/-- What was handed out stands before the cursors, in order. -/
structure Handed (passed : ℕ → ℕ → ℕ → Prop) (named : String → ℕ → ℕ → Prop)
    (emissions : List Emission) (cursors : Tracker) : Prop where
  valid : ∀ m ∈ emissions, validateSessionId m.identity.id = true
  inside : ∀ m ∈ emissions, m.offset < m.finish
  passed : ∀ m ∈ emissions, passed m.dev m.ino m.finish
  named : ∀ m ∈ emissions, named m.recordId m.dev m.ino
  behind : ∀ m ∈ emissions, ∀ cursor, cursors.get? m.identity = some cursor → cursor.dev = m.dev →
    cursor.ino = m.ino → m.finish < cursor.offset
  ordered : emissions.Pairwise fun a b => a.identity = b.identity → a.dev = b.dev → a.ino = b.ino →
    a.finish < b.offset

section

variable {passed passed' : ℕ → ℕ → ℕ → Prop} {named named' : String → ℕ → ℕ → Prop}
  {emissions : List Emission}

/-- More may have been passed and named, and fewer cursors are left. -/
theorem Handed.mono (h : Handed passed named emissions cursors)
    (hpassed : ∀ dev ino n, passed dev ino n → passed' dev ino n)
    (hnamed : ∀ recordId dev ino, named recordId dev ino → named' recordId dev ino)
    (hcursors : ∀ key cursor, cursors'.get? key = some cursor → cursors.get? key = some cursor) :
    Handed passed' named' emissions cursors' where
  valid := h.valid
  inside := h.inside
  passed m hm := hpassed _ _ _ (h.passed m hm)
  named m hm := hnamed _ _ _ (h.named m hm)
  behind m hm cursor hcursor := h.behind m hm cursor (hcursors _ _ hcursor)
  ordered := h.ordered

/-- **One session.**  What is handed out stands behind everything that was handed out before. -/
theorem Handed.observed (h : Handed passed named emissions cursors)
    (hseen : ∀ n, passed info.dev info.ino n ↔ info.bytes[n]? = some 10)
    (hnamed : named binding.recordId info.dev info.ino)
    (hvalid : validateSessionId item.identity.id = true) (hof : cursor.Of item binding info)
    (hobserved : Observed L cursors item binding info emitted cursor found) :
    ∃ new : List Emission, found = new.map (fun m => m.toMark.completion L) ∧
      Handed passed named (emissions ++ new) (cursors.insert item.identity cursor) := by
  have hcursor : ∀ key c, (cursors.insert item.identity cursor).get? key = some c →
      key = item.identity ∧ c = cursor ∨ cursors.get? key = some c := by
    intro key c hc
    rcases Table.get?_insert_some hc with ⟨hkey, hc⟩ | hc
    · exact .inl ⟨hkey, hc⟩
    · exact .inr hc
  cases hobserved with
  -- the first look at a file hands out nothing
  | first lines hscan harmed =>
    refine ⟨[], rfl, ?_⟩
    rw [List.append_nil]
    refine ⟨h.valid, h.inside, h.passed, h.named, fun m hm c hc hdev hino => ?_, h.ordered⟩
    rcases hcursor _ _ hc with ⟨-, rfl⟩ | hold
    · -- the first look passes every line feed that was seen before
      have hfeed := h.passed m hm
      rw [← hdev, ← hino, hof.dev, hof.ino, hseen] at hfeed
      exact scan_passes hscan hfeed
    · exact h.behind m hm c hold hdev hino
  | next old lines hold hsame hscan harmed =>
    have hofOld := Cursor.of_same hsame
    have hsub : (((due L old.armed lines).2.take (emittedMax - emitted)).map Prod.fst).Sublist
        lines := ((List.take_sublist _ _).map _).trans due_sublist
    -- a next look hands out the lines that are due, as far as there is room
    refine ⟨((due L old.armed lines).2.take (emittedMax - emitted)).map
      (emissionOf item.identity binding.recordId info), ?_, ?_⟩
    · rw [List.map_map]
      rfl
    -- every line of this look lies between the two cursors, and ends with a line feed
    · have hline : ∀ m ∈ ((due L old.armed lines).2.take (emittedMax - emitted)).map
          (emissionOf item.identity binding.recordId info),
          m.identity = item.identity ∧ m.recordId = binding.recordId ∧ m.dev = info.dev ∧
            m.ino = info.ino ∧ m.offset < m.finish ∧ old.offset ≤ m.offset ∧
            m.finish < cursor.offset ∧ info.bytes[m.finish]? = some 10 := by
        intro m hm
        obtain ⟨e, he, rfl⟩ := List.mem_map.mp hm
        obtain ⟨⟨line, position⟩, completedAt⟩ := e
        have hmem : (line, position) ∈ lines := hsub.subset (List.mem_map_of_mem he)
        obtain ⟨hstands, hstart, hend, -⟩ := scan_stands hscan hmem
        have hlength := List.length_pos_iff.mpr hstands.nonempty
        refine ⟨rfl, rfl, rfl, rfl, ?_, hstart, hend, hstands.newline⟩
        show position < position + line.length
        omega
      -- what was handed out before lies before the old cursor
      have hbehind : ∀ m ∈ emissions, m.identity = item.identity → info.dev = m.dev →
          info.ino = m.ino → m.finish < old.offset := by
        intro m hm hidentity hdev hino
        refine h.behind m hm old ?_ (hofOld.dev.trans hdev) (hofOld.ino.trans hino)
        rw [hidentity]
        exact hold
      have hoffset := (scan_le hscan).1
      refine ⟨?_, ?_, ?_, ?_, ?_, ?_⟩
      · intro m hm
        rcases List.mem_append.mp hm with hm | hm
        · exact h.valid m hm
        · rw [(hline m hm).1]
          exact hvalid
      · intro m hm
        rcases List.mem_append.mp hm with hm | hm
        · exact h.inside m hm
        · exact (hline m hm).2.2.2.2.1
      · intro m hm
        rcases List.mem_append.mp hm with hm | hm
        · exact h.passed m hm
        · obtain ⟨-, -, hdev, hino, -, -, -, hfeed⟩ := hline m hm
          rw [hdev, hino, hseen]
          exact hfeed
      · intro m hm
        rcases List.mem_append.mp hm with hm | hm
        · exact h.named m hm
        · obtain ⟨-, hrecord, hdev, hino, -⟩ := hline m hm
          rw [hrecord, hdev, hino]
          exact hnamed
      -- everything lies behind the cursor of its session
      · intro m hm c hc hdev hino
        rcases hcursor _ _ hc with ⟨hkey, rfl⟩ | hother
        · rw [hof.dev] at hdev
          rw [hof.ino] at hino
          rcases List.mem_append.mp hm with hm | hm
          · exact lt_of_lt_of_le (hbehind m hm hkey hdev hino) hoffset
          · exact (hline m hm).2.2.2.2.2.2.1
        · rcases List.mem_append.mp hm with hm | hm
          · exact h.behind m hm c hother hdev hino
          · -- a session that was observed has the new cursor
            rw [(hline m hm).1, Table.get?_insert_self] at hc
            cases hc
            exact (hline m hm).2.2.2.2.2.2.1
      -- and in the order of the file
      · rw [List.pairwise_append]
        refine ⟨h.ordered, ?_, fun a ha b hb hidentity hdev hino => ?_⟩
        · rw [List.pairwise_map]
          have hpairs := List.pairwise_map.mp ((scan_ordered hscan).sublist hsub)
          exact hpairs.imp fun hab _ _ _ => hab
        · obtain ⟨hb1, -, hb3, hb4, -, hb6, -⟩ := hline b hb
          exact lt_of_lt_of_le (hbehind a ha (hidentity.trans hb1) (hb3.symm.trans hdev.symm)
            (hb4.symm.trans hino.symm)) hb6

/-- All sessions of an observation. -/
theorem Handed.items {items : List Item} {seen : List Files} (inner : Inner) {inner' : Inner}
    (h : Handed (Passed seen) named emissions inner.cursors)
    (hgrows : Growing (seenBy items ++ seen))
    (hnamed : ∀ item ∈ items, ∀ binding info, item.observation.binding = some binding →
      item.files binding.root binding.path = some info → named binding.recordId info.dev info.ino)
    (hfold : items.foldlM (observeItem L) inner = .ok inner') :
    ∃ new : List Emission,
      inner'.output = inner.output ++ new.map (fun m => m.toMark.completion L) ∧
      Handed (Passed (seenBy items ++ seen)) named (emissions ++ new) inner'.cursors := by
  induction items generalizing emissions inner seen with
  | nil =>
    cases hfold
    exact ⟨[], by simp, by rwa [List.append_nil]⟩
  | cons item items ih =>
    rw [seenBy_cons] at hgrows ⊢
    rw [List.foldlM_cons] at hfold
    cases hitem : observeItem L inner item with
    | error e =>
      rw [hitem] at hfold
      cases hfold
    | ok next =>
      rw [hitem] at hfold
      have hfold : items.foldlM (observeItem L) next = .ok inner' := hfold
      -- the files only grow over the observations of a call
      have hhere : Growing (item.files :: seen) := hgrows.of_append
      have hpassed : ∀ dev ino n, Passed seen dev ino n →
          Passed ([item.files] ++ seen) dev ino n := fun _ _ _ hn => hn.append
      have hrest : ∀ item ∈ items, ∀ binding info, item.observation.binding = some binding →
          item.files binding.root binding.path = some info →
          named binding.recordId info.dev info.ino :=
        fun item hmem => hnamed item (List.mem_cons_of_mem _ hmem)
      rcases observeItem_ok hitem with ⟨hcursors, houtput⟩ |
        ⟨binding, info, cursor, found, hvalid, hbinding, hfile, hof, -, hobserved, hcursors,
          houtput⟩
      -- the cursor of the session was dropped, nothing is handed out
      · have hnext : Handed (Passed (item.files :: seen)) named emissions next.cursors := by
          refine h.mono hpassed (fun _ _ _ hn => hn) fun key cursor hkey => ?_
          rw [hcursors key] at hkey
          split at hkey
          · cases hkey
          · exact hkey
        obtain ⟨new, hnew, hdone⟩ := ih next hnext hgrows hrest hfold
        exact ⟨new, by rw [hnew, houtput], hdone⟩
      -- a line feed was passed if it is in the file now
      · have hseen : ∀ n, Passed (item.files :: seen) info.dev info.ino n ↔
            info.bytes[n]? = some 10 := fun n =>
          ⟨fun hn => hhere.passed hfile hn,
            fun hn => ⟨_, List.mem_cons_self, _, _, info, hfile, rfl, rfl, hn⟩⟩
        have hbefore := h.mono hpassed (fun _ _ _ hn => hn) fun _ _ hkey => hkey
        obtain ⟨first, hfirst, hnext⟩ := hbefore.observed hseen
          (hnamed item List.mem_cons_self binding info hbinding hfile) hvalid hof hobserved
        rw [← hcursors] at hnext
        obtain ⟨new, hnew, hdone⟩ := ih next hnext hgrows hrest hfold
        refine ⟨first ++ new, ?_, ?_⟩
        · rw [hnew, houtput, hfirst, List.map_append, List.append_assoc]
        · rw [← List.append_assoc]
          exact hdone

end

/-- What an observation that succeeds goes through. -/
theorem observe_ok {items : List Item} {first last : Bool} {output : List Completion}
    (h : (observe L cursors items first last).1 = .ok output) :
    ∃ kept retained inner, (∀ key cursor, kept.get? key = some cursor ↔
        cursors.get? key = some cursor ∧ key ∈ items.map fun item => item.observation.identity) ∧
      items.foldlM (observeItem L) ⟨kept, retained, []⟩ = .ok inner ∧
      inner.output = output ∧
      (observe L cursors items first last).2 = inner.cursors := by
  unfold observe at h ⊢
  cases hinner : observeInner L cursors items first last with
  | error e =>
    rw [hinner] at h
    cases h
  | ok result =>
    obtain ⟨output', after⟩ := result
    rw [hinner] at h
    obtain rfl : output' = output := Except.ok.inj h
    unfold observeInner at hinner
    dsimp only at hinner
    split at hinner
    · cases hinner
    · split at hinner
      · cases hinner
      · split at hinner
        · cases hinner
        · split at hinner
          · cases hinner
          · next inner hfold =>
            split at hinner
            · cases hinner
            · split at hinner
              · cases hinner
              · cases hinner
                refine ⟨_, _, inner, fun key cursor => ?_, hfold, rfl, rfl⟩
                rw [Table.get?_retain, decide_eq_true_eq]

/-- `observe_inner` is never unavailable. -/
theorem observeItem_error {inner : Inner} {item : Item} {e : Error}
    (h : observeItem L inner item = .error e) : e ≠ .unavailable := by
  obtain ⟨item, files, fate⟩ := item
  unfold observeItem at h
  dsimp only at h
  rintro rfl
  split at h
  · cases h
  · split at h
    · cases h
    · split at h
      · cases h
      · split at h
        · split at h <;> cases h
        · cases h
        · next hne _ =>
          cases h
          exact hne rfl

/-- The loop over the items never fails with `Unavailable`. -/
theorem observeInner_error {items : List Item} {first last : Bool} {e : Error}
    (h : observeInner L cursors items first last = .error e) : e ≠ .unavailable := by
  -- no item of a call answers that the file is unavailable: such an item is passed over
  have hfold : ∀ (items : List Item) (inner : Inner) (e : Error),
      items.foldlM (observeItem L) inner = .error e → e ≠ .unavailable := by
    intro items
    induction items with
    | nil =>
      intro inner e h
      cases h
    | cons item items ih =>
      intro inner e h
      rw [List.foldlM_cons] at h
      cases hitem : observeItem L inner item with
      | error e' =>
        rw [hitem] at h
        cases h
        exact observeItem_error hitem
      | ok next =>
        rw [hitem] at h
        exact ih next e h
  unfold observeInner at h
  dsimp only at h
  split at h
  · cases h
    exact fun hno => by cases hno
  · split at h
    · cases h
      exact fun hno => by cases hno
    · split at h
      · cases h
        exact fun hno => by cases hno
      · split at h
        · next e' hitems =>
          cases h
          exact hfold _ _ _ hitems
        · split at h
          · cases h
            exact fun hno => by cases hno
          · split at h
            · cases h
              exact fun hno => by cases hno
            · cases h

/-- An observation that fails forgets every cursor. -/
theorem observe_error {items : List Item} {first last : Bool} {e : Error}
    (h : (observe L cursors items first last).1 = .error e) :
    (observe L cursors items first last).2 = .empty := by
  unfold observe at h ⊢
  cases hinner : observeInner L cursors items first last with
  | ok result =>
    rw [hinner] at h
    cases h
  | error e' =>
    dsimp only
    rw [if_neg (observeInner_error hinner)]

/-- **What a call does**: it hands out nothing and forgets cursors at most, or it goes through all
    its sessions. -/
theorem step_cases (call : Call) {e : Entry} (he : ⟨cursors, call, (step L cursors call).1⟩ = e) :
    (e.completions = [] ∧ ∀ key cursor, (step L cursors call).2.get? key = some cursor →
        cursors.get? key = some cursor) ∨
      ∃ kept retained inner, (∀ key cursor, kept.get? key = some cursor →
          cursors.get? key = some cursor) ∧
        e.call.items.foldlM (observeItem L) ⟨kept, retained, []⟩ = .ok inner ∧
        e.completions = inner.output ∧ (step L cursors call).2 = inner.cursors := by
  subst he
  cases call with
  | forget identity =>
    refine .inl ⟨rfl, fun key cursor hkey => ?_⟩
    have hkey : (cursors.erase identity).get? key = some cursor := hkey
    rw [Table.get?_erase] at hkey
    split at hkey
    · cases hkey
    · exact hkey
  | clear => exact .inl ⟨rfl, fun key cursor hkey => by cases hkey⟩
  | observe items first last =>
    cases hresult : (observe L cursors items first last).1 with
    | error error =>
      refine .inl ⟨Entry.completions_error hresult, fun key cursor hkey => ?_⟩
      have hkey : (observe L cursors items first last).2.get? key = some cursor := hkey
      rw [observe_error hresult] at hkey
      cases hkey
    | ok output =>
      obtain ⟨kept, retained, inner, hkept, hfold, houtput, hafter⟩ := observe_ok hresult
      exact .inr ⟨kept, retained, inner, fun key cursor hkey => ((hkept key cursor).mp hkey).1,
        hfold, (Entry.completions_ok hresult).trans houtput.symm, hafter⟩

/-- **Over a run** everything that was handed out stands before the cursors. -/
theorem Handed.run {history : List Entry} (hrun : Run L history cursors)
    (hgrows : Growing (views history)) : ∃ emissions : List Emission,
      completions history = emissions.map (fun m => m.toMark.completion L) ∧
      Handed (Passed (views history)) (NamedBy history) emissions cursors := by
  -- induction on the run; nothing is handed out by a tracker that has seen nothing
  induction hrun with
  | new =>
    refine ⟨[], rfl, ?_⟩
    constructor
    · intro m hm
      cases hm
    · intro m hm
      cases hm
    · intro m hm
      cases hm
    · intro m hm
      cases hm
    · intro m hm
      cases hm
    · exact List.Pairwise.nil
  | step history cursors call hrun ih =>
    generalize he : (⟨cursors, call, (step L cursors call).1⟩ : Entry) = e at hgrows ⊢
    have hgrows : Growing (seenBy e.call.items ++ views history) := hgrows
    obtain ⟨emissions, hemissions, hhanded⟩ := ih hgrows.of_append
    have hnamed : ∀ recordId dev ino, NamedBy history recordId dev ino →
        NamedBy (e :: history) recordId dev ino := by
      rintro recordId dev ino ⟨e', he', hrest⟩
      exact ⟨e', List.mem_cons_of_mem _ he', hrest⟩
    -- a call that is turned away hands out nothing, and its cursors are among those of before
    rcases step_cases call he with ⟨hnone, hcursors⟩ |
      ⟨kept, retained, inner, hkept, hfold, houtput, hafter⟩
    · refine ⟨emissions, ?_, hhanded.mono (fun _ _ _ hn => hn.append) hnamed hcursors⟩
      show completions history ++ e.completions = _
      rw [hnone, List.append_nil, hemissions]
    · have hstart : Handed (Passed (views history)) (NamedBy (e :: history)) emissions kept :=
        hhanded.mono (fun _ _ _ hn => hn) hnamed hkept
      -- what its items name is named by the call itself
      have hnames : ∀ item ∈ e.call.items, ∀ binding info,
          item.observation.binding = some binding →
          item.files binding.root binding.path = some info →
          NamedBy (e :: history) binding.recordId info.dev info.ino := by
        intro item hitem binding info hbinding hinfo
        exact ⟨e, List.mem_cons_self, item, hitem, binding, hbinding, rfl, info, hinfo, rfl, rfl⟩
      obtain ⟨new, hnew, hdone⟩ :=
        Handed.items ⟨kept, retained, []⟩ hstart hgrows hnames hfold
      refine ⟨emissions ++ new, ?_, ?_⟩
      · show completions history ++ e.completions = _
        rw [houtput, hnew, hemissions, List.map_append]
        rfl
      · rw [hafter]
        exact hdone

/-! ### Ids

What is hashed for a completion is its session, its record id and a place of its file, with a
separator between them that no session has. -/

/-- The text of a number has no zero byte. -/
theorem nul_notMem_toString (n : Int64) : '\x00' ∉ (toString n).toList := by
  have hrepr : toString n = n.toInt.repr := rfl
  have hdigits : ∀ k : ℕ, '\x00' ∉ k.repr.toList := by
    intro k hk
    rw [Nat.toList_repr] at hk
    exact absurd (Nat.isDigit_of_mem_toDigits (by decide) (by decide) hk) (by decide)
  rw [hrepr]
  cases n.toInt with
  | ofNat k => exact hdigits k
  | negSucc k =>
    show '\x00' ∉ ("-" ++ (k + 1).repr).toList
    rw [String.toList_append, List.mem_append]
    rintro (h | h)
    · exact absurd h (by decide)
    · exact hdigits _ h

/-- A session id has no zero byte. -/
theorem nul_notMem_id {id : String} (h : validateSessionId id = true) : '\x00' ∉ id.toList := by
  intro hnul
  have hbyte : (0 : UInt8) ∈ bytes id := by
    rw [bytes_eq_flatMap]
    exact List.mem_flatMap.mpr ⟨'\x00', hnul, by decide⟩
  unfold validateSessionId at h
  simp only [Bool.and_eq_true, decide_eq_true_eq, beq_iff_eq] at h
  obtain ⟨⟨-, hhead⟩, htail⟩ := h
  cases hbytes : bytes id with
  | nil =>
    rw [hbytes] at hbyte
    cases hbyte
  | cons b rest =>
    rw [hbytes] at hbyte hhead htail
    rcases List.mem_cons.mp hbyte with hb | hrest
    · have hdollar : b = 36 := Option.some.inj hhead
      rw [hdollar] at hb
      exact absurd hb (by decide)
    · have hdigit := List.all_eq_true.mp htail 0 hrest
      exact absurd hdigit (by decide)

/-- **Different completions have different texts** to be hashed. -/
theorem eventText_inj {identity identity' : SessionIdentity} {recordId recordId' : String}
    {offset offset' : ℕ} (hid : validateSessionId identity.id = true)
    (hid' : validateSessionId identity'.id = true)
    (h : eventText identity recordId offset = eventText identity' recordId' offset') :
    identity = identity' ∧ recordId = recordId' ∧ offset = offset' := by
  have htext : ∀ (identity : SessionIdentity) (recordId : String) (offset : ℕ),
      (eventText identity recordId offset).toList = "hmux-codex-task-complete-v1\x00".toList ++
        (identity.id.toList ++ '\x00' :: ((toString identity.createdAt).toList ++
          '\x00' :: (recordId.toList ++ '\x00' :: (toString offset).toList))) := by
    intro identity recordId offset
    unfold eventText
    simp only [String.toList_append, List.append_assoc]
    rfl
  have hdecimal : ∀ n : ℕ, '\x00' ∉ (toString n).toList.reverse := by
    intro n hn
    rw [List.mem_reverse, show toString n = n.repr from rfl, Nat.toList_repr] at hn
    exact absurd (Nat.isDigit_of_mem_toDigits (by decide) (by decide) hn) (by decide)
  have hlist := congrArg String.toList h
  rw [htext, htext, List.append_cancel_left_eq] at hlist
  obtain ⟨hname, hlist⟩ := append_cons_inj (nul_notMem_id hid) (nul_notMem_id hid') hlist
  obtain ⟨hcreated, hlist⟩ :=
    append_cons_inj (nul_notMem_toString _) (nul_notMem_toString _) hlist
  -- the offset is what stands after the last NUL
  have hreverse := congrArg List.reverse hlist
  rw [List.reverse_append, List.reverse_append, List.reverse_cons, List.reverse_cons,
    List.append_assoc, List.append_assoc, List.singleton_append, List.singleton_append] at hreverse
  obtain ⟨hoffset, hrecord⟩ := append_cons_inj (hdecimal _) (hdecimal _) hreverse
  have htime := Json.Compact.int64_toString_inj (String.toList_inj.mp hcreated)
  refine ⟨?_, String.toList_inj.mp (List.reverse_inj.mp hrecord), ?_⟩
  · cases identity
    cases identity'
    cases htime
    cases String.toList_inj.mp hname
    rfl
  · have hrepr : (offset : ℤ).repr = (offset' : ℤ).repr :=
      String.toList_inj.mp (List.reverse_inj.mp hoffset)
    have hread := Json.Compact.signed_repr (offset : ℤ)
    rw [hrepr, Json.Compact.signed_repr] at hread
    exact Int.ofNat_inj.mp (Option.some.inj hread).symm

/-- **No completion is handed out twice.**  Over any run of observations with failures, re-baselines
    and forgotten sessions, as long as files only grow and a record id is that of one file, the ids
    of all completions are hashes of different texts. -/
theorem handed_out_once {history : List Entry} (hrun : Run L history cursors)
    (hgrows : Growing (views history)) (hnames : NamesFiles history) : ∃ marks : List Mark,
      completions history = marks.map (Mark.completion L) ∧ (marks.map Mark.text).Nodup := by
  obtain ⟨emissions, hemissions, h⟩ := Handed.run hrun hgrows
  refine ⟨emissions.map Emission.toMark, ?_, ?_⟩
  · rw [hemissions, List.map_map]
    rfl
  · rw [List.map_map, List.Nodup, List.pairwise_map]
    refine h.ordered.imp_of_mem fun {a b} ha hb hordered htext => ?_
    obtain ⟨hidentity, hrecord, hoffset⟩ := eventText_inj (h.valid a ha) (h.valid b hb) htext
    have hnamed := h.named a ha
    rw [hrecord] at hnamed
    obtain ⟨hdev, hino⟩ := hnames _ _ _ _ _ hnamed (h.named b hb)
    have hlt := hordered hidentity hdev hino
    have hinside := h.inside a ha
    rw [hoffset] at hinside
    exact absurd (lt_trans hinside hlt) (lt_irrefl _)

/-! ### A task

A task is started before the first look at its file and completed after it. -/

namespace TaskExample

/-- The record that starts a task. -/
def startedText : String := "\x7b\"type\":\"task_started\"\x7d"

/-- The record that completes it. -/
def completeText : String :=
  "\x7b\"type\":\"task_complete\",\"timestamp\":\"2026-09-20T01:02:03Z\"\x7d"

def startedLine : List UInt8 := bytes startedText ++ [10]

def completeLine : List UInt8 := bytes completeText ++ [10]

/-- A whole second has no nanoseconds. -/
theorem whole_second : 0 < 2000000000 := by decide

/-- The libraries, on the two records and on the texts that are hashed, which have 24, 84 and 41
    bytes. -/
def libraries : Libraries where
  event line :=
    if line = bytes startedText then some ⟨some "task_started", none, none⟩
    else if line = bytes completeText then
      some ⟨some "task_complete", some "2026-09-20T01:02:03Z", none⟩
    else none
  rfc3339 _ := some ⟨20716, 3723, 0, by decide, whole_second⟩
  format _ := "2026-09-20T01:02:03"
  sha256 l :=
    if l.length = 24 then
      #v[23, 55, 16, 0, 15, 113, 212, 221, 207, 150, 211, 8, 211, 121, 170, 85, 58, 115, 9, 110, 9,
        146, 222, 209, 154, 89, 218, 143, 118, 133, 190, 71]
    else if l.length = 84 then
      #v[132, 67, 28, 222, 219, 194, 244, 60, 111, 27, 237, 189, 0, 134, 204, 242, 14, 137, 177,
        189, 152, 181, 48, 142, 202, 190, 13, 1, 249, 104, 101, 17]
    else
      #v[24, 50, 36, 87, 250, 66, 231, 185, 225, 116, 93, 127, 243, 154, 233, 17, 155, 226, 84, 109,
        64, 118, 51, 133, 240, 156, 54, 94, 40, 181, 0, 235]

def session : SessionIdentity := ⟨"$1", 42⟩

def path : Path := bytes "/home/me/.codex/sessions/rollout-test.jsonl"

def root : Path := bytes "/home/me/.codex/sessions"

def watched : Observation := ⟨session, some ⟨.codex, path, root, "test", .ready⟩, "fd:20:20"⟩

/-- The file with this content. -/
def filed (bytes : List UInt8) : Files := fun r p =>
  if r = root ∧ p = path then some ⟨1, 7, bytes⟩ else none

/-- The session is looked at when its file has this content. -/
def watchedAt (bytes : List UInt8) : Item := ⟨watched, filed bytes, .done⟩

def look (bytes : List UInt8) : Call := .observe [watchedAt bytes] true true

/-- The tracker after the first look. -/
def seen : Tracker := (step libraries .empty (look startedLine)).2

/-- The task is started, and then it is completed. -/
def history : List Entry :=
  [⟨seen, look (startedLine ++ completeLine),
      (step libraries seen (look (startedLine ++ completeLine))).1⟩,
    ⟨.empty, look startedLine, (step libraries .empty (look startedLine)).1⟩]

/-- The two calls are a run. -/
theorem run : Run libraries history (step libraries seen (look (startedLine ++ completeLine))).2 :=
  .step _ _ _ (.step _ _ _ .new)

/-- The completion of the task. -/
def done : Completion :=
  ⟨session, "18322457fa42e7b9e1745d7ff39ae9119be2546d40763385f09c365e28b500eb",
    "2026-09-20T01:02:03Z"⟩

/-- The second one hands out the completion. -/
theorem completions_done : completions history = [done] := by decide +kernel

/-- There is one file. -/
theorem filed_some {bytes : List UInt8} {r p : Path} {info : Record}
    (h : filed bytes r p = some info) : info = ⟨1, 7, bytes⟩ := by
  unfold filed at h
  split at h
  · exact (Option.some.inj h).symm
  · cases h

/-- It grows with its bytes. -/
theorem filed_grows {bytes bytes' : List UInt8} (h : bytes <+: bytes') :
    (filed bytes).Grows (filed bytes') := by
  intro r p r' p' info info' hinfo hinfo' _ _
  rw [filed_some hinfo, filed_some hinfo']
  exact h

/-- The files of the run grow. -/
theorem growing : Growing (views history) := by
  refine ⟨fun files hfiles => ?_, ?_⟩
  · rcases List.mem_cons.mp hfiles with rfl | hfiles
    · exact filed_grows (List.prefix_refl _)
    · rw [List.mem_singleton.mp hfiles]
      exact filed_grows (List.prefix_refl _)
  · refine List.pairwise_cons.mpr ⟨fun files hfiles => ?_, List.pairwise_singleton _ _⟩
    rw [List.mem_singleton.mp hfiles]
    exact filed_grows (List.prefix_append _ _)

/-- The record id is that of one file. -/
theorem namesFiles : NamesFiles history := by
  have hfile : ∀ recordId dev ino, NamedBy history recordId dev ino → dev = 1 ∧ ino = 7 := by
    rintro recordId dev ino ⟨e, he, item, hitem, binding, -, -, info, hinfo, rfl, rfl⟩
    rcases List.mem_cons.mp he with rfl | he
    · rw [List.mem_singleton.mp hitem] at hinfo
      rw [filed_some hinfo]
      exact ⟨rfl, rfl⟩
    · rw [List.mem_singleton.mp he] at hitem
      rw [List.mem_singleton.mp hitem] at hinfo
      rw [filed_some hinfo]
      exact ⟨rfl, rfl⟩
  intro recordId dev ino dev' ino' h h'
  obtain ⟨rfl, rfl⟩ := hfile _ _ _ h
  obtain ⟨rfl, rfl⟩ := hfile _ _ _ h'
  exact ⟨rfl, rfl⟩

theorem done_once : completions history = [done] ∧ ∃ marks : List Mark,
    completions history = marks.map (Mark.completion libraries) ∧ (marks.map Mark.text).Nodup :=
  ⟨completions_done, handed_out_once run growing namesFiles⟩

end TaskExample

end Hmux.Home.CompletionTracker
