import Hmux.Home.CompletionRuns

namespace Hmux.Home.CompletionTracker

open Lib

/-!
# The tasks behind the completions

What the tracker hands out is in the files that it reads.

* `Running` — a task runs at a place of a file;
* `Settles` — what the cursors tell about their files, in every state of a run;
* `handed_out_completes` — only tasks that run are completed.

A cursor knows of a task without having seen it start: the first look at a long file reads its end
only.  What it does know is kept as a fact about the file, that a line before the cursor starts the
task and no line in between completes it, and this fact survives the growth of the file.
-/

variable {L : Libraries} {opened : Files} {cursors cursors' : Tracker} {item : Observation}
  {binding : Binding} {info : Record} {emitted : ℕ} {cursor : Cursor}
  {found : List Completion} {armed : Bool} {lines : List (List UInt8 × ℕ)}

/-! ### Only tasks that run are completed

From what one reading finds to what the cursors of a run know, and from there to what is handed
out. -/

/-- A task runs after some lines: it ran before and none of them completes it, or one starts it and
    none after that completes it. -/
theorem due_running (h : (due L armed lines).1 = true) :
    (armed = true ∧ ∀ x ∈ lines, ∀ timestamp, event L x.1 ≠ some (.taskComplete, timestamp)) ∨
      ∃ before l after timestamp, lines = before ++ l :: after ∧
        event L l.1 = some (.taskStarted, timestamp) ∧
        ∀ x ∈ after, ∀ timestamp, event L x.1 ≠ some (.taskComplete, timestamp) := by
  induction lines generalizing armed with
  | nil => exact .inl ⟨h, fun x hx => by cases hx⟩
  | cons line lines ih =>
    cases hevent : event L line.1 with
    | none =>
      rw [due_cons_none hevent] at h
      rcases ih h with ⟨harmed, hnone⟩ | ⟨before, l, after, timestamp, rfl, hl, hnone⟩
      · refine .inl ⟨harmed, fun x hx timestamp hx' => ?_⟩
        rcases List.mem_cons.mp hx with rfl | hx
        · rw [hevent] at hx'
          cases hx'
        · exact hnone x hx timestamp hx'
      · exact .inr ⟨line :: before, l, after, timestamp, rfl, hl, hnone⟩
    | some e =>
      obtain ⟨kind, timestamp⟩ := e
      cases kind with
      | taskStarted =>
        rw [due_cons_started hevent] at h
        rcases ih h with ⟨-, hnone⟩ | ⟨before, l, after, timestamp, rfl, hl, hnone⟩
        · exact .inr ⟨[], line, lines, timestamp, rfl, hevent, hnone⟩
        · exact .inr ⟨line :: before, l, after, timestamp, rfl, hl, hnone⟩
      | taskComplete =>
        rw [due_cons_complete hevent] at h
        rcases ih h with ⟨hno, -⟩ | ⟨before, l, after, timestamp, rfl, hl, hnone⟩
        · cases hno
        · exact .inr ⟨line :: before, l, after, timestamp, rfl, hl, hnone⟩

/-- What is due is a completion, of a task that runs when it is read. -/
theorem due_completes {e : (List UInt8 × ℕ) × String} (h : e ∈ (due L armed lines).2) :
    ∃ before after, lines = before ++ e.1 :: after ∧
      event L e.1.1 = some (.taskComplete, some e.2) ∧ (due L armed before).1 = true := by
  induction lines generalizing armed with
  | nil => cases h
  | cons line lines ih =>
    cases hevent : event L line.1 with
    | none =>
      rw [due_cons_none hevent] at h
      obtain ⟨before, after, rfl, hcomplete, hruns⟩ := ih h
      exact ⟨line :: before, after, rfl, hcomplete, by rwa [due_cons_none hevent]⟩
    | some kind =>
      obtain ⟨kind, timestamp⟩ := kind
      cases kind with
      | taskStarted =>
        rw [due_cons_started hevent] at h
        obtain ⟨before, after, rfl, hcomplete, hruns⟩ := ih h
        exact ⟨line :: before, after, rfl, hcomplete, by rwa [due_cons_started hevent]⟩
      | taskComplete =>
        rw [due_cons_complete hevent] at h
        rcases List.mem_append.mp h with hhere | hlater
        · cases armed with
          | false => cases hhere
          | true =>
            cases timestamp with
            | none => cases hhere
            | some completedAt =>
              obtain rfl := List.mem_singleton.mp hhere
              exact ⟨[], lines, rfl, hevent, rfl⟩
        · obtain ⟨before, after, rfl, hcomplete, hruns⟩ := ih hlater
          exact ⟨line :: before, after, rfl, hcomplete, by rwa [due_cons_complete hevent]⟩

/-- A line starts here, or the rest of one that was too long to be looked through. -/
def Begins (fragment : ℕ → Prop) (bytes : List UInt8) (position : ℕ) : Prop :=
  LineStart bytes position ∨ fragment position

variable (L) in
/-- A task runs at a place of a file: a line before it starts one, and no line from there on
    completes it. -/
def Running (fragment : ℕ → Prop) (bytes : List UInt8) (place : ℕ) : Prop :=
  ∃ line position timestamp, Stands bytes line position ∧ Begins fragment bytes position ∧
    position + line.length < place ∧ event L line = some (.taskStarted, timestamp) ∧
    ∀ line' position' timestamp', Stands bytes line' position' → LineStart bytes position' →
      position < position' → position' + line'.length < place →
      event L line' ≠ some (.taskComplete, timestamp')

section

variable {fragment fragment' : ℕ → Prop} {bytes bytes' line : List UInt8} {place start offset
  position : ℕ} {tail : Bool} {before rest : List (List UInt8 × ℕ)}

theorem Begins.mono (h : Begins fragment bytes position) (hgrows : bytes <+: bytes')
    (hfragment : ∀ n, fragment n → fragment' n) : Begins fragment' bytes' position := by
  rcases h with h | h
  · exact .inl (h.mono hgrows)
  · exact .inr (hfragment _ h)

theorem Running.mono (h : Running L fragment bytes place) (hgrows : bytes <+: bytes')
    (hfragment : ∀ n, fragment n → fragment' n) (hplace : place ≤ bytes.length) :
    Running L fragment' bytes' place := by
  obtain ⟨line, position, timestamp, hstands, hbegins, hend, hevent, hnone⟩ := h
  refine ⟨line, position, timestamp, hstands.mono hgrows, hbegins.mono hgrows hfragment, hend,
    hevent, fun line' position' timestamp' hstands' hstart' hlater hbefore => ?_⟩
  -- what ends before the place stands in the file as it was
  refine hnone line' position' timestamp' (hstands'.of_prefix hgrows (by omega))
    (hstart'.of_prefix hgrows (by omega)) hlater hbefore

/-- **A task runs** before a line of one reading. -/
theorem running_before (hscan : scan bytes start tail = .ok (offset, before ++ rest))
    (hrest : ∀ x ∈ rest, place ≤ x.2) (hbefore : ∀ x ∈ before, x.2 + x.1.length < place)
    (hstart : start ≤ place) (hbegins : tail = false → Begins fragment bytes start)
    (harmed : armed = true → LineStart bytes start ∧ Running L fragment bytes start)
    (h : (due L armed before).1 = true) : Running L fragment bytes place := by
  -- what was read before `place` is all there is between `start` and `place`
  have hread : ∀ line position, Stands bytes line position → LineStart bytes position →
      start ≤ position → position + line.length < place → (line, position) ∈ before := by
    intro line position hstands hline hfrom hend
    rcases List.mem_append.mp (scan_complete hscan hstands hline hfrom) with hmem | hmem
    · exact hmem
    · have hle := hrest _ hmem
      dsimp only at hle
      omega
  rcases due_running h with ⟨hruns, hnone⟩ | ⟨earlier, l, later, timestamp, rfl, hl, hnone⟩
  · -- it ran already where the reading starts
    obtain ⟨hline, line, position, timestamp, hstands, hbegin, hend, hevent, hquiet⟩ := harmed hruns
    refine ⟨line, position, timestamp, hstands, hbegin, by omega, hevent,
      fun line' position' timestamp' hstands' hstart' hlater hbound => ?_⟩
    by_cases hold : position' < start
    · refine hquiet line' position' timestamp' hstands' hstart' hlater ?_
      rcases hline with hzero | hfeed
      · omega
      · have hle := hstands'.lt_of_newline hfeed (by omega)
        omega
    · exact hnone _ (hread line' position' hstands' hstart' (by omega) hbound) timestamp'
  -- it was armed in this reading, by the last start before `place`
  · obtain ⟨line, position⟩ := l
    have hmem : (line, position) ∈ earlier ++ (line, position) :: later :=
      List.mem_append_right _ List.mem_cons_self
    obtain ⟨hstands, hfrom, -, hbegin⟩ := scan_stands hscan (List.mem_append_left _ hmem)
    have hbegin : Begins fragment bytes position := by
      rcases hbegin with ⟨rfl, htail⟩ | hline
      · exact hbegins htail
      · exact .inl hline
    refine ⟨line, position, timestamp, hstands, hbegin, hbefore _ hmem, hl,
      fun line' position' timestamp' hstands' hstart' hlater hbound => ?_⟩
    have hordered := (List.pairwise_append.mp (scan_ordered hscan)).1
    rcases List.mem_append.mp (hread line' position' hstands' hstart' (by omega) hbound) with
      hmem' | hmem'
    · have hlt := (List.pairwise_append.mp hordered).2.2 _ hmem' _ List.mem_cons_self
      dsimp only at hlt
      omega
    · rcases List.mem_cons.mp hmem' with hsame | hmem'
      · cases hsame
        omega
      · exact hnone _ hmem' timestamp'

end

/-- The content of a file when it was looked at. -/
def Known (seen : List Files) (dev ino : ℕ) (bytes : List UInt8) : Prop :=
  ∃ files ∈ seen, ∃ root path r, files root path = some r ∧ r.dev = dev ∧ r.ino = ino ∧
    r.bytes = bytes

theorem Known.append {new seen : List Files} {dev ino : ℕ} {bytes : List UInt8}
    (h : Known seen dev ino bytes) : Known (new ++ seen) dev ino bytes := by
  obtain ⟨files, hfiles, hrest⟩ := h
  exact ⟨files, List.mem_append_right _ hfiles, hrest⟩

/-- A file had this length, and no line feed in its last 8 MiB. -/
def Fragment (known : ℕ → ℕ → List UInt8 → Prop) (dev ino n : ℕ) : Prop :=
  ∃ bytes, known dev ino bytes ∧ bytes.length = n ∧ tailMax < n ∧ 10 ∉ bytes.drop (n - tailMax)

variable (L) in
/-- What a cursor tells about its file. -/
structure Settled (fragment : ℕ → Prop) (bytes : List UInt8) (cursor : Cursor) : Prop where
  inside : cursor.offset ≤ bytes.length
  begins : Begins fragment bytes cursor.offset
  running : cursor.armed = true →
    LineStart bytes cursor.offset ∧ Running L fragment bytes cursor.offset

variable (L) in
/-- What every cursor tells. -/
def Settles (known : ℕ → ℕ → List UInt8 → Prop) (cursors : Tracker) : Prop :=
  ∀ key cursor, cursors.get? key = some cursor → ∃ bytes, known cursor.dev cursor.ino bytes ∧
    Settled L (Fragment known cursor.dev cursor.ino) bytes cursor

variable (L) in
/-- A completion of a task of this session: a line of the file that the session is bound to
    completes it, a line before that starts it, and no line between them completes it. -/
def Completes (known : ℕ → ℕ → List UInt8 → Prop) (item : Item) (c : Completion) : Prop :=
  ∃ binding info line position, c.identity = item.observation.identity ∧
    item.observation.binding = some binding ∧
    item.files binding.root binding.path = some info ∧
    c.id = eventId L c.identity binding.recordId position ∧ Stands info.bytes line position ∧
    Begins (Fragment known info.dev info.ino) info.bytes position ∧
    event L line = some (.taskComplete, some c.completedAt) ∧
    Running L (Fragment known info.dev info.ino) info.bytes position

section

variable {known known' : ℕ → ℕ → List UInt8 → Prop} {dev ino : ℕ} {bytes bytes' : List UInt8}

theorem Fragment.mono (hknown : ∀ dev ino bytes, known dev ino bytes → known' dev ino bytes) {n : ℕ}
    (h : Fragment known dev ino n) : Fragment known' dev ino n := by
  obtain ⟨bytes, hbytes, hrest⟩ := h
  exact ⟨bytes, hknown _ _ _ hbytes, hrest⟩

theorem Settled.mono {fragment fragment' : ℕ → Prop} (h : Settled L fragment bytes cursor)
    (hgrows : bytes <+: bytes') (hfragment : ∀ n, fragment n → fragment' n) :
    Settled L fragment' bytes' cursor where
  inside := le_trans h.inside hgrows.length_le
  begins := h.begins.mono hgrows hfragment
  running harmed := ⟨(h.running harmed).1.mono hgrows,
    (h.running harmed).2.mono hgrows hfragment h.inside⟩

theorem Settles.mono (h : Settles L known cursors)
    (hknown : ∀ dev ino bytes, known dev ino bytes → known' dev ino bytes)
    (hcursors : ∀ key cursor, cursors'.get? key = some cursor → cursors.get? key = some cursor) :
    Settles L known' cursors' := by
  intro key cursor hkey
  obtain ⟨bytes, hbytes, hsettled⟩ := h key cursor (hcursors key cursor hkey)
  exact ⟨bytes, hknown _ _ _ hbytes,
    hsettled.mono (List.prefix_refl _) fun n => Fragment.mono hknown⟩

theorem Completes.mono (hknown : ∀ dev ino bytes, known dev ino bytes → known' dev ino bytes)
    {item : Item} {c : Completion} (h : Completes L known item c) : Completes L known' item c := by
  obtain ⟨binding, info, line, position, hsession, hbound, hfile, hid, hstands, hbegins, hevent,
    hrunning⟩ := h
  have hinside : position ≤ info.bytes.length := by
    obtain ⟨before, after, hbytes, rfl⟩ := hstands.stands
    rw [hbytes, List.length_append, List.length_append]
    omega
  exact ⟨binding, info, line, position, hsession, hbound, hfile, hid, hstands,
    hbegins.mono (List.prefix_refl _) fun n => Fragment.mono hknown, hevent,
    hrunning.mono (List.prefix_refl _) (fun n => Fragment.mono hknown) hinside⟩

/-- A first look leaves a cursor that tells about its file. -/
theorem settled_first {lines : List (List UInt8 × ℕ)} (hknown : known info.dev info.ino info.bytes)
    (hscan : scan info.bytes (info.bytes.length - tailMax) true = .ok (cursor.offset, lines))
    (harmed : cursor.armed = (due L false lines).1) :
    Settled L (Fragment known info.dev info.ino) info.bytes cursor := by
  refine ⟨(scan_le hscan).2, ?_, fun h => ?_⟩
  · rcases scan_begins hscan with hline | ⟨-, ⟨hno, -⟩ | ⟨-, hpos, hend, hfree⟩⟩
    · exact .inl hline
    · cases hno
    · refine .inr ⟨info.bytes, hknown, hend.symm, by omega, ?_⟩
      rw [hend]
      exact hfree
  · rw [harmed] at h
    have hline : LineStart info.bytes cursor.offset := by
      rcases scan_begins hscan with hline | ⟨rfl, -⟩
      · exact hline
      · cases h
    have hscan' : scan info.bytes (info.bytes.length - tailMax) true =
        .ok (cursor.offset, lines ++ []) := by
      rw [List.append_nil]
      exact hscan
    exact ⟨hline, running_before hscan' (fun x hx => by cases hx)
      (fun x hx => (scan_stands hscan hx).2.2.1) (scan_le hscan).1 (fun hno => by cases hno)
      (fun hno => by cases hno) h⟩

/-- So does a reading that goes on. -/
theorem settled_next {old : Cursor} {lines : List (List UInt8 × ℕ)} {fragment : ℕ → Prop}
    (hold : Settled L fragment info.bytes old)
    (hscan : scan info.bytes old.offset false = .ok (cursor.offset, lines))
    (harmed : cursor.armed = (due L old.armed lines).1) :
    Settled L fragment info.bytes cursor := by
  have hbegins : LineStart info.bytes cursor.offset ∨ lines = [] ∧ cursor.offset = old.offset := by
    rcases scan_begins hscan with hline | ⟨hlines, ⟨-, hsame⟩ | ⟨hno, -⟩⟩
    · exact .inl hline
    · exact .inr ⟨hlines, hsame⟩
    · cases hno
  refine ⟨(scan_le hscan).2, ?_, fun h => ?_⟩
  · rcases hbegins with hline | ⟨-, hsame⟩
    · exact .inl hline
    · rw [hsame]
      exact hold.begins
  · rw [harmed] at h
    rcases hbegins with hline | ⟨rfl, hsame⟩
    · have hscan' : scan info.bytes old.offset false = .ok (cursor.offset, lines ++ []) := by
        rw [List.append_nil]
        exact hscan
      exact ⟨hline, running_before hscan' (fun x hx => by cases hx)
        (fun x hx => (scan_stands hscan hx).2.2.1) (scan_le hscan).1 (fun _ => hold.begins)
        hold.running h⟩
    · rw [hsame]
      exact hold.running h

/-- **One session.**  What is handed out is a completion of a task that ran. -/
theorem observed_completes {item : Item} (hbound : item.observation.binding = some binding)
    (hfile : item.files binding.root binding.path = some info) (hsettles : Settles L known cursors)
    (hinfo : known info.dev info.ino info.bytes)
    (hgrows : ∀ bytes, known info.dev info.ino bytes → bytes <+: info.bytes)
    (hof : cursor.Of item.observation binding info)
    (hobserved : Observed L cursors item.observation binding info emitted cursor found) :
    (∀ c ∈ found, Completes L known item c) ∧
      Settles L known (cursors.insert item.observation.identity cursor) := by
  -- the identity that was observed gets the new cursor; the other cursors are as they were
  have hinsert : Settled L (Fragment known info.dev info.ino) info.bytes cursor →
      Settles L known (cursors.insert item.observation.identity cursor) := by
    intro hsettled key c hc
    rcases Table.get?_insert_some hc with ⟨-, rfl⟩ | hc
    · rw [hof.dev, hof.ino]
      exact ⟨info.bytes, hinfo, hsettled⟩
    · exact hsettles key c hc
  cases hobserved with
  | first lines hscan harmed =>
    exact ⟨fun c hc => (by cases hc), hinsert (settled_first hinfo hscan harmed)⟩
  | next old lines hold hsame hscan harmed =>
    have hofOld := Cursor.of_same hsame
    obtain ⟨bytes, hbytes, hsettled⟩ := hsettles _ old hold
    rw [hofOld.dev, hofOld.ino] at hbytes hsettled
    have hsettled := hsettled.mono (hgrows bytes hbytes) fun n hn => hn
    refine ⟨fun c hc => ?_, hinsert (settled_next hsettled hscan harmed)⟩
    obtain ⟨e, he, rfl⟩ := List.mem_map.mp hc
    -- the line that completed is in the reading, and so is, or stands before it, the one that armed
    obtain ⟨before, after, rfl, hevent, hruns⟩ := due_completes (List.mem_of_mem_take he)
    obtain ⟨⟨line, position⟩, completedAt⟩ := e
    have hmem : (line, position) ∈ before ++ (line, position) :: after :=
      List.mem_append_right _ List.mem_cons_self
    obtain ⟨hstands, hfrom, -, hbegin⟩ := scan_stands hscan hmem
    have hordered := List.pairwise_append.mp (scan_ordered hscan)
    refine ⟨binding, info, line, position, rfl, hbound, hfile, rfl, hstands, ?_, hevent, ?_⟩
    · rcases hbegin with ⟨rfl, -⟩ | hline
      · exact hsettled.begins
      · exact .inl hline
    · refine running_before hscan (fun x hx => ?_) (fun x hx => ?_) hfrom
        (fun _ => hsettled.begins) hsettled.running hruns
      · rcases List.mem_cons.mp hx with rfl | hx
        · exact Nat.le_refl _
        · have hlt := (List.pairwise_cons.mp hordered.2.1).1 x hx
          dsimp only at hlt
          omega
      · exact hordered.2.2 x hx _ List.mem_cons_self

end

theorem Growing.known {files : Files} {seen : List Files} (h : Growing (files :: seen))
    {root path : Path} {r : Record} (hr : files root path = some r) :
    Known (files :: seen) r.dev r.ino r.bytes ∧
      ∀ bytes, Known (files :: seen) r.dev r.ino bytes → bytes <+: r.bytes := by
  refine ⟨⟨files, List.mem_cons_self, root, path, r, hr, rfl, rfl, rfl⟩, ?_⟩
  rintro bytes ⟨earlier, hearlier, root', path', r', hr', hdev, hino, rfl⟩
  exact h.prefix hearlier hr' hr hdev hino

/-- All sessions of an observation. -/
theorem items_complete {items : List Item} {seen : List Files} (inner : Inner) {inner' : Inner}
    (hsettles : Settles L (Known seen) inner.cursors) (hgrows : Growing (seenBy items ++ seen))
    (hfold : items.foldlM (observeItem L) inner = .ok inner') :
    (∃ new, inner'.output = inner.output ++ new ∧
      ∀ c ∈ new, ∃ item ∈ items, Completes L (Known (seenBy items ++ seen)) item c) ∧
    Settles L (Known (seenBy items ++ seen)) inner'.cursors := by
  induction items generalizing inner seen with
  | nil =>
    cases hfold
    exact ⟨⟨[], (List.append_nil _).symm, fun c hc => by cases hc⟩, hsettles⟩
  | cons item items ih =>
    rw [seenBy_cons] at hgrows ⊢
    rw [List.foldlM_cons] at hfold
    cases hitem : observeItem L inner item with
    | error e =>
      rw [hitem] at hfold
      cases hfold
    | ok next =>
      rw [hitem] at hfold
      have hhere : Growing (item.files :: seen) := hgrows.of_append
      have hknown : ∀ dev ino bytes, Known seen dev ino bytes →
          Known ([item.files] ++ seen) dev ino bytes := fun _ _ _ hn => hn.append
      -- what one session hands out, before the others
      have hone : (∃ found, next.output = inner.output ++ found ∧
            ∀ c ∈ found, Completes L (Known (item.files :: seen)) item c) ∧
          Settles L (Known (item.files :: seen)) next.cursors := by
        rcases observeItem_ok hitem with ⟨hcursors, hsame⟩ |
          ⟨binding, info, cursor, found, -, hbound, hfile, hof, -, hobserved, hcursors, hnext⟩
        · refine ⟨⟨[], by rw [hsame, List.append_nil], fun c hc => by cases hc⟩,
            hsettles.mono hknown fun key cursor hkey => ?_⟩
          rw [hcursors key] at hkey
          split at hkey
          · cases hkey
          · exact hkey
        · obtain ⟨hinfo, hprefix⟩ := hhere.known hfile
          obtain ⟨hfound, hsettled⟩ := observed_completes hbound hfile
            (hsettles.mono hknown fun _ _ hkey => hkey) hinfo hprefix hof hobserved
          rw [hcursors]
          exact ⟨⟨found, hnext, hfound⟩, hsettled⟩
      obtain ⟨⟨found, hnext, hfound⟩, hsettled⟩ := hone
      obtain ⟨⟨new, hnew, hmore⟩, hdone⟩ := ih next hsettled hgrows hfold
      refine ⟨⟨found ++ new, by rw [hnew, hnext, List.append_assoc], fun c hc => ?_⟩, hdone⟩
      rcases List.mem_append.mp hc with hc | hc
      · exact ⟨item, List.mem_cons_self, (hfound c hc).mono fun _ _ _ hn => hn.append⟩
      · obtain ⟨x, hx, hcompletes⟩ := hmore c hc
        exact ⟨x, List.mem_cons_of_mem _ hx, hcompletes⟩

/-- Over a run the cursors tell about their files. -/
theorem settles_run {history : List Entry} (hrun : Run L history cursors)
    (hgrows : Growing (views history)) :
    (∀ e ∈ history, ∀ c ∈ e.completions,
      ∃ item ∈ e.call.items, Completes L (Known (views history)) item c) ∧
    Settles L (Known (views history)) cursors := by
  induction hrun with
  | new => exact ⟨fun e he => (by cases he), fun key cursor hkey => (by cases hkey)⟩
  | step history cursors call hrun ih =>
    generalize he : (⟨cursors, call, (step L cursors call).1⟩ : Entry) = e at hgrows ⊢
    have hgrows : Growing (seenBy e.call.items ++ views history) := hgrows
    obtain ⟨hcompletes, hsettles⟩ := ih hgrows.of_append
    have hknown : ∀ dev ino bytes, Known (views history) dev ino bytes →
        Known (views (e :: history)) dev ino bytes := fun _ _ _ hn => hn.append
    have hall : (∀ c ∈ e.completions, ∃ item ∈ e.call.items,
          Completes L (Known (views (e :: history))) item c) →
        ∀ e' ∈ e :: history, ∀ c ∈ e'.completions,
          ∃ item ∈ e'.call.items, Completes L (Known (views (e :: history))) item c := by
      intro hnew e' he' c hc
      rcases List.mem_cons.mp he' with rfl | he'
      · exact hnew c hc
      · obtain ⟨item, hitem, hitemCompletes⟩ := hcompletes e' he' c hc
        exact ⟨item, hitem, hitemCompletes.mono hknown⟩
    rcases step_cases call he with ⟨hnone, hcursors⟩ |
      ⟨kept, retained, inner, hkept, hfold, houtput, hafter⟩
    · refine ⟨hall fun c hc => ?_, hsettles.mono hknown hcursors⟩
      rw [hnone] at hc
      cases hc
    · have hstart : Settles L (Known (views history)) kept :=
        hsettles.mono (fun _ _ _ hn => hn) hkept
      obtain ⟨⟨new, hnew, hmore⟩, hdone⟩ :=
        items_complete ⟨kept, retained, []⟩ hstart hgrows hfold
      refine ⟨hall fun c hc => ?_, ?_⟩
      · rw [houtput, hnew, List.nil_append] at hc
        exact hmore c hc
      · rw [hafter]
        exact hdone

/-- **Only tasks that run are completed.**  Every completion that an observation hands out is that
    of one of its sessions, and a line of the file that this session is bound to: a line that
    completes a task, after one that starts it, with no line between them that completes one.
    Both are whole lines, unless a line of more than 8 MiB was cut by a first look: what was still
    missing of it then counts as a line. -/
theorem handed_out_completes {history : List Entry} (hrun : Run L history cursors)
    (hgrows : Growing (views history)) : ∀ e ∈ history, ∀ c ∈ e.completions,
      ∃ item ∈ e.call.items, Completes L (Known (views history)) item c :=
  (settles_run hrun hgrows).1

namespace TaskExample

theorem done_completes :
    Completes libraries (Known (views history)) (watchedAt (startedLine ++ completeLine)) done := by
  have hdone : done ∈ (⟨seen, look (startedLine ++ completeLine),
      (step libraries seen (look (startedLine ++ completeLine))).1⟩ : Entry).completions := by
    decide +kernel
  obtain ⟨item, hitem, hcompletes⟩ :=
    handed_out_completes run growing _ List.mem_cons_self done hdone
  rwa [List.mem_singleton.mp hitem] at hcompletes

end TaskExample

end Hmux.Home.CompletionTracker
