import Hmux.Lib.Chrono
import Hmux.Lib.Json.Reader
import Hmux.Lib.LineReader
import Hmux.Lib.Machine
import Hmux.Lib.Table
import Hmux.Model.Session

namespace Hmux.Home.CompletionTracker

open Lib

/-!
# Which tasks are completed

`completion_tracker.rs`: Home watches the files that Codex appends its records to.  For every tmux
session that is bound to such a file a `Cursor` keeps how far the file is read and whether a task is
running.  The first observation of a file only finds out whether a task runs; later ones read on
from the cursor, and a `task_complete` of a running task is handed out.

What the file system and the clock do is input: for each session the files as they are when it is
looked at (`Files`), and whether the observation is cancelled or its file cannot be read (`Fate`).
Where in `observe_one` this happens makes no difference, since nothing is kept of it.

* `observe`, `forget`, `clear` — the operations of a `Tracker`;
* `scan_ok`, `scan_begins` — what one reading of a file hands out and where it ends.
-/

/-- `TAIL_MAX`. -/
def tailMax : ℕ := 8 * 1024 * 1024

/-- `LINE_MAX`. -/
def lineMax : ℕ := 2 * 1024 * 1024

/-- `CURSORS_MAX`. -/
def cursorsMax : ℕ := 4096

/-- `RETAINED_MAX`. -/
def retainedMax : ℕ := 4 * 1024 * 1024

/-- `EMITTED_MAX`. -/
def emittedMax : ℕ := 64

/-- `ANCHOR_MAX`. -/
def anchorMax : ℕ := 256

/-- The bytes of a path. -/
abbrev Path := List UInt8

/-! ### What is observed

The types of the source, and what the file system and the clock do during one observation. -/

/-- `Provider`. -/
inductive Provider
  | codex | claude
  deriving DecidableEq

/-- `Status`. -/
inductive Status
  | unavailable | ready | ambiguous
  deriving DecidableEq

/-- `Binding`, with what the tracker reads of it. -/
structure Binding where
  provider : Provider
  path : Path
  root : Path
  recordId : String
  status : Status

/-- `Observation`. -/
structure Observation where
  identity : SessionIdentity
  binding : Option Binding
  ownership : String

/-- `Completion`. -/
structure Completion where
  identity : SessionIdentity
  id : String
  completedAt : String
  deriving DecidableEq

/-- `Error`. -/
inductive Error
  | cancelled | limit | unavailable
  deriving DecidableEq

/-- A record file: the device and the inode that identify it, and its bytes. -/
structure Record where
  dev : ℕ
  ino : ℕ
  bytes : List UInt8

/-- The files that `open_record` opens, by their roots and paths. -/
abbrev Files := Path → Path → Option Record

/-- What becomes of the checks and the reads of an observation. -/
inductive Fate
  | done
  /-- It is cancelled before the session is looked at. -/
  | stopped
  /-- It is cancelled while the file is read. -/
  | cancelled
  /-- The file cannot be read to its end. -/
  | unreadable
  deriving DecidableEq

/-- A session of an observation, with the files as they are when it is looked at. -/
structure Item where
  observation : Observation
  files : Files
  fate : Fate

/-- `Payload`. -/
structure Payload where
  kind : Option String

/-- `Event`. -/
structure Event where
  kind : Option String
  timestamp : Option String
  payload : Option Payload

/-- What the libraries do: `serde_json` of an event, `parse_from_rfc3339`, `format` with the pattern
    `%Y-%m-%dT%H:%M:%S`, and SHA-256. -/
structure Libraries where
  event : List UInt8 → Option Event
  rfc3339 : String → Option DateTime
  format : DateTime → String
  sha256 : List UInt8 → Vector UInt8 32

/-- `Cursor`. -/
structure Cursor where
  ownership : String
  root : Path
  path : Path
  recordId : String
  dev : ℕ
  ino : ℕ
  offset : ℕ
  anchor : Vector UInt8 32
  anchorLen : ℕ
  armed : Bool
  deriving DecidableEq

/-- `Tracker`. -/
abbrev Tracker := Table SessionIdentity Cursor

variable (L : Libraries)

/-! ### Reading a file

A first reading starts at most 8 MiB before the end and skips the line it starts in; a later one
starts at the cursor.  Lines that are empty or too long are left out. -/

/-- `anchor`. -/
def anchor (bytes : List UInt8) (offset : ℕ) : Vector UInt8 32 × ℕ :=
  let len := min offset anchorMax
  (L.sha256 ((bytes.drop (offset - len)).take len), len)

/-- The reading skips what stands before the first line feed. -/
def skips (bytes : List UInt8) (start : ℕ) (tail : Bool) : Bool :=
  tail && 0 < start && bytes[start - 1]? ≠ some 10

/-- `scan`: where the reading ends, and the lines with their places. -/
def scan (bytes : List UInt8) (start : ℕ) (tail : Bool) :
    Except Error (ℕ × List (List UInt8 × ℕ)) :=
  let size := bytes.length
  if size < start || tailMax < size - start then .error .limit
  else
    let r := LineReader.read 10 lineMax (.init start (skips bytes start tail)) (bytes.drop start)
    .ok (if tail && 0 < start && r.complete == start && r.skip then size else r.complete, r.visited)

/-- The kinds of events. -/
inductive Kind
  | taskStarted | taskComplete
  deriving DecidableEq

/-- A text that names a kind. -/
def Kind.ofText (text : Option String) : Option Kind :=
  if text = some "task_started" then some .taskStarted
  else if text = some "task_complete" then some .taskComplete
  else none

/-- `format!("{nanos:09}")` without the zeros at its end. -/
def fraction (nanos : ℕ) : List Char :=
  let digits := List.replicate (9 - (Nat.toDigits 10 nanos).length) '0' ++ Nat.toDigits 10 nanos
  (digits.reverse.dropWhile (· = '0')).reverse

/-- The text of an instant. -/
def timeText (date : DateTime) : String :=
  L.format date ++
    (if date.frac ≠ 0 then "." ++ String.ofList (fraction date.frac) else "") ++ "Z"

/-- `event`. -/
def event (line : List UInt8) : Option (Kind × Option String) :=
  match L.event line with
  | none => none
  | some value =>
    let selected := (Kind.ofText value.kind).or
      (Kind.ofText (value.payload.bind (·.kind)))
    match selected with
    | none => none
    | some kind =>
      let date := (value.timestamp.bind L.rfc3339).filter fun date : DateTime =>
        !(date.day * 86400 + date.secs == -62135596800 && date.frac == 0)
      some (kind, date.map (timeText L))

/-- What is hashed for an event. -/
def eventText (identity : SessionIdentity) (recordId : String) (offset : ℕ) : String :=
  "hmux-codex-task-complete-v1\x00" ++ identity.id ++ "\x00" ++ toString identity.createdAt ++
    "\x00" ++ recordId ++ "\x00" ++ toString offset

/-- `event_id`. -/
def eventId (identity : SessionIdentity) (recordId : String) (offset : ℕ) : String :=
  String.ofList (hexOf (L.sha256 (bytes (eventText identity recordId offset))).toList)

/-- The bytes that a cursor keeps. -/
def Cursor.size (cursor : Cursor) (identity : SessionIdentity) : ℕ :=
  cursor.root.length + cursor.path.length + (bytes cursor.recordId).length +
    (bytes identity.id).length + (bytes cursor.ownership).length

/-! ### One session

`observe_one` opens the file, decides whether the cursor is still about it, and goes through the
lines with a closure. -/

/-- What the closure of `observe_one` changes. -/
structure Seen where
  armed : Bool
  found : List Completion

/-- The closure of `observe_one`. -/
def visit (same : Bool) (remaining : ℕ) (identity : SessionIdentity) (recordId : String)
    (seen : Seen) (line : List UInt8 × ℕ) : Seen :=
  match event L line.1 with
  | none => seen
  | some (.taskStarted, _) => { seen with armed := true }
  | some (.taskComplete, timestamp) =>
    { armed := false
      found := seen.found ++
        if same && seen.armed && seen.found.length < remaining then
          (timestamp.map fun completedAt =>
            ⟨identity, eventId L identity recordId line.2, completedAt⟩).toList
        else [] }

/-- The cursor still tells about the file. -/
def Cursor.same (cursor : Cursor) (item : Observation) (binding : Binding) (info : Record) : Bool :=
  cursor.ownership == item.ownership && cursor.root == binding.root &&
    cursor.path == binding.path && cursor.recordId == binding.recordId &&
    cursor.dev == info.dev && cursor.ino == info.ino && cursor.offset ≤ info.bytes.length &&
    info.bytes.length - cursor.offset ≤ tailMax &&
    CompletionTracker.anchor L info.bytes cursor.offset == (cursor.anchor, cursor.anchorLen)

/-- `observe_one`, after `emitted` completions of other sessions. -/
def observeOne (files : Files) (cursors : Tracker) (item : Observation) (binding : Binding)
    (emitted : ℕ) (fate : Fate) : Except Error (Cursor × List Completion) :=
  if 256 < (bytes item.ownership).length then .error .limit
  else
    match files binding.root binding.path with
    | none => .error .unavailable
    | some info =>
      match fate with
      | .cancelled => .error .cancelled
      | .unreadable => .error .unavailable
      | _ =>
        let previous := (cursors.get? item.identity).filter fun cursor =>
          cursor.same L item binding info
        let start := (previous.map Cursor.offset).getD (info.bytes.length - tailMax)
        let armed := (previous.map Cursor.armed).getD false
        match scan info.bytes start previous.isNone with
        | .error e => .error e
        | .ok (offset, lines) =>
          let seen := lines.foldl
            (visit L previous.isSome (emittedMax - emitted) item.identity binding.recordId)
            ⟨armed, []⟩
          .ok ({ ownership := item.ownership, root := binding.root, path := binding.path,
                 recordId := binding.recordId, dev := info.dev, ino := info.ino, offset,
                 anchor := (anchor L info.bytes offset).1,
                 anchorLen := (anchor L info.bytes offset).2, armed := seen.armed }, seen.found)

/-! ### All sessions

The loop over the sessions drops what it cannot use, bounds what is kept and what is handed out,
and is abandoned as a whole when it is cancelled. -/

/-- What `observe_inner` keeps while it goes through the sessions. -/
structure Inner where
  cursors : Tracker
  retained : ℕ
  output : List Completion

/-- The cursor of a session is dropped. -/
def Inner.drop (inner : Inner) (identity : SessionIdentity) : Inner :=
  match inner.cursors.get? identity with
  | none => inner
  | some old =>
    { inner with cursors := inner.cursors.erase identity
                 retained := inner.retained - old.size identity }

/-- The binding is of use to the tracker. -/
def Binding.usable (binding : Binding) : Bool :=
  binding.provider = .codex && binding.status = .ready && binding.path ≠ [] && binding.root ≠ [] &&
    binding.recordId ≠ ""

/-- One session of `observe_inner`. -/
def observeItem (inner : Inner) (item : Item) : Except Error Inner :=
  let ⟨item, files, fate⟩ := item
  if fate = .stopped then .error .cancelled
  else if !validateSessionId item.identity.id || item.identity.createdAt < 1 then
    .ok (inner.drop item.identity)
  else
    match item.binding.filter Binding.usable with
    | none => .ok (inner.drop item.identity)
    | some binding =>
      match observeOne L files inner.cursors item binding inner.output.length fate with
      | .ok (cursor, found) =>
        let retained := inner.retained + cursor.size item.identity -
          ((inner.cursors.get? item.identity).map (·.size item.identity)).getD 0
        if retainedMax < retained then .error .limit
        else .ok ⟨inner.cursors.insert item.identity cursor, retained, inner.output ++ found⟩
      | .error .unavailable => .ok (inner.drop item.identity)
      | .error e => .error e

/-- The bytes that the cursors keep. -/
def retainedBytes (cursors : Tracker) : ℕ := (cursors.entries.map fun e => e.2.size e.1).sum

/-- `observe_inner`; the first and the last check pass or are cancelled. -/
def observeInner (cursors : Tracker) (items : List Item) (first last : Bool) :
    Except Error (List Completion × Tracker) :=
  if !first then .error .cancelled
  else if cursorsMax < (items.map fun item =>
    item.observation.identity).dedup.length then .error .limit
  else
    let cursors := cursors.retain fun identity _ =>
      identity ∈ items.map fun item => item.observation.identity
    if retainedMax < retainedBytes cursors then .error .limit
    else
      match items.foldlM (observeItem L) ⟨cursors, retainedBytes cursors, []⟩ with
      | .error e => .error e
      | .ok inner =>
        if !last then .error .cancelled
        else if retainedMax <
            inner.retained + (inner.output.map fun c => (bytes c.identity.id).length).sum then
          .error .limit
        else .ok (inner.output, inner.cursors)

/-- `observe`: an error of `observe_inner`, which is a cancellation or a limit, forgets every
    cursor. -/
def observe (cursors : Tracker) (items : List Item) (first last : Bool) :
    Except Error (List Completion) × Tracker :=
  match observeInner L cursors items first last with
  | .ok (output, cursors) => (.ok output, cursors)
  | .error e => (.error e, if e = .unavailable then cursors else .empty)

/-- `forget`. -/
def forget (cursors : Tracker) (identity : SessionIdentity) : Tracker := cursors.erase identity

/-- `clear`. -/
def clear (_ : Tracker) : Tracker := .empty

/-! ### Lines of a file

A line stands in a file at a place, and stands there still when the file has grown. -/

/-- A line of a file, as the tracker reads them: it is not empty and not too long. -/
structure Stands (bytes line : List UInt8) (position : ℕ) : Prop where
  stands : ∃ before after, bytes = before ++ line ++ 10 :: after ∧ before.length = position
  free : 10 ∉ line
  short : line.length ≤ lineMax
  nonempty : line ≠ []

/-- A place where a line starts. -/
def LineStart (bytes : List UInt8) (position : ℕ) : Prop :=
  position = 0 ∨ bytes[position - 1]? = some 10

variable {L} {bytes bytes' line : List UInt8} {position start offset : ℕ} {tail : Bool}
  {lines : List (List UInt8 × ℕ)}

theorem Stands.mono (h : Stands bytes line position) (hgrows : bytes <+: bytes') :
    Stands bytes' line position := by
  obtain ⟨before, after, rfl, hposition⟩ := h.stands
  obtain ⟨more, rfl⟩ := hgrows
  exact ⟨⟨before, after ++ more, by simp, hposition⟩, h.free, h.short, h.nonempty⟩

theorem Stands.newline (h : Stands bytes line position) :
    bytes[position + line.length]? = some 10 := by
  obtain ⟨before, after, rfl, rfl⟩ := h.stands
  rw [← List.length_append, List.getElem?_append_right (Nat.le_refl _), Nat.sub_self]
  rfl

theorem LineStart.mono (h : LineStart bytes position) (hgrows : bytes <+: bytes') :
    LineStart bytes' position := by
  obtain ⟨more, rfl⟩ := hgrows
  rcases h with rfl | h
  · exact .inl rfl
  · exact .inr (List.getElem?_append_left (List.getElem?_eq_some_iff.mp h).1 ▸ h)

/-- Where no line feed stands before its end, a line cannot be passed by one. -/
theorem Stands.lt_of_newline {n : ℕ} (h : Stands bytes line position) (hn : bytes[n]? = some 10)
    (hposition : position ≤ n) : position + line.length ≤ n := by
  by_contra hinside
  obtain ⟨before, after, rfl, rfl⟩ := h.stands
  rw [List.append_assoc, List.getElem?_append_right hposition,
    List.getElem?_append_left (by omega)] at hn
  exact h.free (List.mem_of_getElem? hn)

/-- What ends inside the file as it was stood there already. -/
theorem Stands.of_prefix (h : Stands bytes' line position) (hgrows : bytes <+: bytes')
    (hinside : position + line.length < bytes.length) : Stands bytes line position := by
  obtain ⟨before, after, hbytes, rfl⟩ := h.stands
  obtain ⟨more, rfl⟩ := hgrows
  have hprefix : before ++ line ++ [10] <+: bytes := by
    refine List.prefix_of_prefix_length_le ?_ (List.prefix_append bytes more) ?_
    · rw [hbytes]
      exact ⟨after, by rw [List.append_assoc]; rfl⟩
    · rw [List.length_append, List.length_append, List.length_singleton]
      omega
  obtain ⟨after', rfl⟩ := hprefix
  exact ⟨⟨before, after', by rw [List.append_assoc]; rfl, rfl⟩, h.free, h.short, h.nonempty⟩

theorem LineStart.of_prefix (h : LineStart bytes' position) (hgrows : bytes <+: bytes')
    (hinside : position ≤ bytes.length) : LineStart bytes position := by
  obtain ⟨more, rfl⟩ := hgrows
  by_cases hzero : position = 0
  · exact .inl hzero
  · rcases h with h | h
    · exact absurd h hzero
    · right
      rwa [List.getElem?_append_left (by omega)] at h

/-! ### One reading

What `scan` returns, in terms of the lines that stand in the file. -/

theorem scan_ok (h : scan bytes start tail = .ok (offset, lines)) :
    start ≤ bytes.length ∧
      lines = (LineReader.read 10 lineMax (.init start (skips bytes start tail))
        (bytes.drop start)).visited ∧
      (offset = (LineReader.read 10 lineMax (.init start (skips bytes start tail))
          (bytes.drop start)).complete ∨
        offset = bytes.length ∧ 0 < start ∧ tail = true ∧ 10 ∉ bytes.drop start ∧ lines = []) := by
  unfold scan at h
  dsimp only at h
  split at h
  · cases h
  · next hsize =>
    rw [Bool.or_eq_true, not_or, decide_eq_true_eq, Nat.not_lt] at hsize
    refine ⟨hsize.1, ?_⟩
    obtain ⟨done, rest, hsplit, hcut⟩ := LineReader.exists_cut 10 (bytes.drop start)
    injection h with h
    injection h with hoffset hlines
    refine ⟨hlines.symm, ?_⟩
    split at hoffset
    · next hend =>
      right
      simp only [Bool.and_eq_true, decide_eq_true_eq, beq_iff_eq] at hend
      obtain ⟨⟨⟨htail, hstart⟩, -⟩, hskip⟩ := hend
      rw [hsplit, LineReader.skip_cut hcut, Bool.and_eq_true, List.isEmpty_iff] at hskip
      obtain ⟨-, rfl⟩ := hskip
      rw [hsplit, List.nil_append]
      refine ⟨hoffset.symm, hstart, htail, hcut.2, ?_⟩
      rw [← hlines, hsplit, LineReader.visited_cut hcut]
      rfl
    · exact .inl hoffset.symm

/-- Every line feed is passed. -/
theorem scan_passes (h : scan bytes start tail = .ok (offset, lines)) {n : ℕ}
    (hn : bytes[n]? = some 10) : n < offset := by
  obtain ⟨hstart, -, hoffset⟩ := scan_ok h
  have hinside : n < bytes.length := (List.getElem?_eq_some_iff.mp hn).1
  rcases hoffset with rfl | ⟨rfl, -⟩
  · by_cases hbefore : n < start
    · exact lt_of_lt_of_le hbefore LineReader.start_le_complete
    · have hdrop : (bytes.drop start)[n - start]? = some 10 := by
        rw [List.getElem?_drop, Nat.add_sub_cancel' (Nat.not_lt.mp hbefore)]
        exact hn
      have hle : start + (n - start) + 1 ≤ (LineReader.read 10 lineMax
          (.init start (skips bytes start tail)) (bytes.drop start)).complete :=
        LineReader.le_complete hdrop
      omega
  · exact hinside

theorem scan_le (h : scan bytes start tail = .ok (offset, lines)) :
    start ≤ offset ∧ offset ≤ bytes.length := by
  obtain ⟨hstart, -, hoffset⟩ := scan_ok h
  rcases hoffset with rfl | ⟨rfl, -⟩
  · refine ⟨LineReader.start_le_complete, ?_⟩
    have hle : (LineReader.read 10 lineMax (.init start (skips bytes start tail))
        (bytes.drop start)).complete ≤ start + (bytes.drop start).length :=
      LineReader.complete_le_position
    rw [List.length_drop] at hle
    omega
  · exact ⟨hstart, Nat.le_refl _⟩

/-- What is handed out is a line of the file, or stands where the reading starts. -/
theorem scan_stands (h : scan bytes start tail = .ok (offset, lines))
    (hline : (line, position) ∈ lines) :
    Stands bytes line position ∧ start ≤ position ∧ position + line.length < offset ∧
      (position = start ∧ tail = false ∨ LineStart bytes position) := by
  obtain ⟨hstart, rfl, hoffset⟩ := scan_ok h
  have hsegment := LineReader.visited_segment hline
  obtain ⟨before, after, hbytes, rfl, hbegin⟩ := hsegment.stands
  have hfile : bytes = (bytes.take start ++ before) ++ line ++ 10 :: after := by
    conv_lhs => rw [← List.take_append_drop start bytes, hbytes]
    simp only [List.append_assoc]
  have hlength : (bytes.take start ++ before).length = start + before.length := by
    rw [List.length_append, List.length_take, Nat.min_eq_left hstart]
  have hstands : Stands bytes line (start + before.length) :=
    ⟨⟨_, _, hfile, hlength⟩, hsegment.free, hsegment.short, hsegment.nonempty⟩
  refine ⟨hstands, Nat.le_add_right _ _, scan_passes h hstands.newline, ?_⟩
  rcases hbegin with ⟨rfl, hskip⟩ | ⟨earlier, rfl⟩
  · rw [List.length_nil, Nat.add_zero]
    cases tail with
    | false => exact .inl ⟨rfl, rfl⟩
    | true =>
      right
      by_cases hzero : start = 0
      · exact .inl hzero
      · right
        unfold skips at hskip
        simpa [Nat.pos_of_ne_zero hzero] using hskip
  · right
    right
    rw [hfile, List.length_append, List.length_singleton]
    have hprevious : start + (earlier.length + 1) - 1 = (bytes.take start ++ earlier).length := by
      rw [List.length_append, List.length_take, Nat.min_eq_left hstart]
      omega
    rw [hprevious, ← List.append_assoc (bytes.take start), List.append_assoc _ [10],
      List.append_assoc _ ([10] ++ line), List.getElem?_append_right (Nat.le_refl _), Nat.sub_self]
    rfl

/-- Every line of the file from there on is handed out. -/
theorem scan_complete (h : scan bytes start tail = .ok (offset, lines))
    (hstands : Stands bytes line position) (hbegin : LineStart bytes position)
    (hstart : start ≤ position) : (line, position) ∈ lines := by
  obtain ⟨hinside, rfl, -⟩ := scan_ok h
  apply LineReader.Segment.visited
  obtain ⟨before, after, hbytes, rfl⟩ := hstands.stands
  refine ⟨⟨before.drop start, after, ?_, ?_, ?_⟩, hstands.free, hstands.short, hstands.nonempty⟩
  · rw [hbytes, List.append_assoc, List.drop_append_of_le_length hstart, List.append_assoc]
  · rw [List.length_drop]
    omega
  · by_cases hempty : before.drop start = []
    · have hhere : before.length = start := by
        have hlength := congrArg List.length hempty
        rw [List.length_drop, List.length_nil] at hlength
        omega
      refine .inl ⟨hempty, ?_⟩
      unfold skips
      rw [hhere] at hbegin
      rcases hbegin with rfl | hbefore
      · simp
      · simp [hbefore]
    · right
      obtain ⟨earlier, b, hlast⟩ :=
        (List.eq_nil_or_concat' (before.drop start)).resolve_left hempty
      refine ⟨earlier, ?_⟩
      have hpos : 0 < before.length := by
        apply Nat.pos_of_ne_zero
        intro hzero
        rw [List.length_eq_zero_iff.mp hzero, List.drop_nil] at hempty
        exact hempty rfl
      rcases hbegin with hzero | hbefore
      · omega
      · -- the last symbol before the line is a line feed
        have hfull : before = before.take start ++ earlier ++ [b] := by
          rw [List.append_assoc, ← hlast, List.take_append_drop]
        have hget : before[before.length - 1]? = some 10 := by
          rw [hbytes, List.append_assoc, List.getElem?_append_left (by omega)] at hbefore
          exact hbefore
        rw [← List.getLast?_eq_getElem?] at hget
        rw [hlast]
        rw [hfull, List.getLast?_append, List.getLast?_singleton] at hget
        cases hget
        rfl

theorem scan_ordered (h : scan bytes start tail = .ok (offset, lines)) :
    lines.Pairwise fun a b => a.2 + a.1.length < b.2 := by
  obtain ⟨-, rfl, -⟩ := scan_ok h
  exact LineReader.visited_ordered

/-- Where a reading ends: after a line feed, where it started, or at the end of the file. -/
theorem scan_begins (h : scan bytes start tail = .ok (offset, lines)) :
    LineStart bytes offset ∨ lines = [] ∧ (tail = false ∧ offset = start ∨
      tail = true ∧ 0 < start ∧ offset = bytes.length ∧ 10 ∉ bytes.drop start) := by
  -- either there is no line feed after the start, or the reading ends behind the last one
  obtain ⟨done, rest, hsplit, hcut⟩ := LineReader.exists_cut 10 (bytes.drop start)
  rcases hcut.1 with rfl | ⟨before, rfl⟩
  · -- no line feed was read
    rw [List.nil_append] at hsplit
    have hlines : lines = [] := by
      rw [(scan_ok h).2.1, hsplit, ← List.nil_append rest, LineReader.visited_cut hcut]
      rfl
    unfold scan at h
    dsimp only at h
    split at h
    · cases h
    · rw [hsplit, ← List.nil_append rest, LineReader.complete_cut hcut,
        LineReader.skip_cut hcut] at h
      rw [← hsplit] at hcut
      injection h with h
      injection h with hoffset _
      rw [List.length_nil, Nat.add_zero, List.isEmpty_nil, Bool.and_true, beq_self_eq_true,
        Bool.and_true] at hoffset
      cases tail with
      | false =>
        rw [Bool.false_and, Bool.false_and, if_neg Bool.false_ne_true] at hoffset
        exact .inr ⟨hlines, .inl ⟨rfl, hoffset.symm⟩⟩
      | true =>
        by_cases hskip : skips bytes start true = true
        · have hpos : 0 < start := by
            unfold skips at hskip
            simp only [Bool.and_eq_true, decide_eq_true_eq] at hskip
            exact hskip.1.2
          rw [hskip, decide_eq_true hpos, Bool.and_true, Bool.and_true, if_pos rfl] at hoffset
          exact .inr ⟨hlines, .inr ⟨rfl, hpos, hoffset.symm, hcut.2⟩⟩
        · rw [Bool.not_eq_true] at hskip
          rw [hskip, Bool.and_false, if_neg Bool.false_ne_true] at hoffset
          left
          by_cases hzero : start = 0
          · exact .inl (hoffset.symm.trans hzero)
          · right
            rw [← hoffset]
            unfold skips at hskip
            simpa [Nat.pos_of_ne_zero hzero] using hskip
  · left
    right
    obtain ⟨hstart, -, hoffset⟩ := scan_ok h
    have hfeed : bytes[start + before.length]? = some 10 := by
      rw [← List.getElem?_drop, hsplit, List.append_assoc,
        List.getElem?_append_right (Nat.le_refl _), Nat.sub_self]
      rfl
    rcases hoffset with rfl | ⟨-, -, -, hno, -⟩
    · rw [hsplit, LineReader.complete_cut hcut, List.length_append, List.length_singleton]
      exact hfeed
    · exact absurd (hsplit ▸ List.mem_append_left _ (List.mem_append_right _
        (List.mem_singleton.mpr rfl))) hno

end Hmux.Home.CompletionTracker
