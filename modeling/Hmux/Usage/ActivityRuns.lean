import Hmux.Lib.Lines
import Hmux.Usage.Activity
import Mathlib.Data.List.Infix

namespace Hmux.Usage.Activity

open Lib

/-!
# Every line is counted once

A file that is only appended to, and the passes that see it at growing lengths.  The offset of
the file is always between two lines, or inside a line that is too long and is being skipped
(`At`); a pass that ends anywhere leaves it there (`readLoop_at`).

* `Scanned` — what holds after every byte;
* `Tracks` — what holds of the offset of the file and of the lines that were parsed;
* `lines_once` — over every run of passes, the parsed lines are the bounded lines of the bytes
  before the offset, in order.

A call of `consume` may end after any byte: its budget is used up, its time is over, or a read has
failed.  The invariant is therefore one of the bytes and not of the calls, and a call only has to
leave an offset at which it holds.
-/

/-- The lines of a text that are not too long. -/
def boundedLines (text : List UInt8) : List (List UInt8) :=
  (Lines.lines 10 text).filter fun line => line.length ≤ maxLineBytes

/-- What stands after the last newline. -/
def openLine (text : List UInt8) : List UInt8 := Lines.unfinished 10 text

/-- The lines of a file that were parsed. -/
def handed (r p : Path) (log : List Entry) : List (List UInt8) :=
  (log.filter fun e => e.root = r && e.path = p).map (·.line)

/-- An offset and the lines parsed before it: it is at the start of a line, or in a line that is
    too long. -/
structure At (final : List UInt8) (lines : List (List UInt8)) (pos : ℕ) (discarding : Bool) :
    Prop where
  inside : pos ≤ final.length
  lines : lines = boundedLines (final.take pos)
  start : discarding = false → openLine (final.take pos) = []
  tooLong : discarding = true → maxLineBytes < (openLine (final.take pos)).length

/-- What holds after every byte. -/
structure Scanned (final : List UInt8) (r p : Path) (s : Scan) : Prop where
  inside : s.position ≤ final.length
  skip : s.skip = false
  lines : handed r p s.log = boundedLines (final.take s.position)
  open_ : s.discarding = false → s.line = openLine (final.take s.position) ∧
    s.line.length ≤ maxLineBytes ∧ s.complete = s.position - s.line.length
  tooLong : s.discarding = true → s.line = [] ∧ s.complete = s.position ∧
    maxLineBytes < (openLine (final.take s.position)).length

section

variable {final : List UInt8} {r p : Path} {parsers : Parsers} {args : Consume} {path : String}
  {s : Scan} {log : List Entry} {pos : ℕ} {discarding : Bool}

/-! ### Texts

What one more byte does to the lines of a text. -/

/-- A line feed closes the open line, which counts if it is short enough. -/
theorem boundedLines_newline (text : List UInt8) : boundedLines (text ++ [10]) =
    boundedLines text ++ [openLine text].filter fun line => line.length ≤ maxLineBytes := by
  unfold boundedLines openLine
  rw [Lines.lines_concat_sep, List.filter_append]

/-- Another byte closes none. -/
theorem boundedLines_other {b : UInt8} (h : b ≠ 10) (text : List UInt8) :
    boundedLines (text ++ [b]) = boundedLines text := by
  unfold boundedLines
  rw [Lines.lines_concat h]

/-- What was handed out over two parts of a log. -/
theorem handed_append (new : List Entry) :
    handed r p (log ++ new) = handed r p log ++ handed r p new := by
  unfold handed
  rw [List.filter_append, List.map_append]

/-- A line of this file is handed out. -/
theorem handed_own (line : List UInt8) (ingest : Option Ingest) :
    handed r p (log ++ [⟨r, p, line, ingest⟩]) = handed r p log ++ [line] := by
  rw [handed_append]
  simp [handed]

/-! ### Bytes

The scanner after some bytes has the lines that these bytes complete, and knows whether it is in a
line that is too long. -/

/-- A scan stands where its lines end. -/
theorem Scanned.at (h : Scanned final r p s) :
    At final (handed r p s.log) s.complete s.discarding := by
  cases hd : s.discarding with
  | true =>
    obtain ⟨-, hcomplete, hlong⟩ := h.tooLong hd
    rw [hcomplete]
    exact ⟨h.inside, h.lines, (fun hno => nomatch hno), fun _ => hlong⟩
  | false =>
    obtain ⟨hline, -, hcomplete⟩ := h.open_ hd
    have hlen : (final.take s.position).length = s.position := by
      rw [List.length_take]
      exact Nat.min_eq_left h.inside
    -- the text up to `complete` is the text that was read without its open line
    have htake : final.take s.complete = (final.take s.position).take
        ((final.take s.position).length - (openLine (final.take s.position)).length) := by
      rw [hlen, ← hline, ← hcomplete, List.take_take, hcomplete]
      congr 1
      omega
    obtain ⟨hlines, hopen⟩ := @Lines.split_closed _ _ (10 : UInt8) (final.take s.position)
    refine ⟨?_, ?_, fun _ => ?_, (fun hno => nomatch hno)⟩
    · have hinside := h.inside
      omega
    · rw [h.lines, htake]
      unfold boundedLines openLine
      rw [hlines]
    · rw [htake]
      exact hopen

/-- Where lines end a scan may begin. -/
theorem At.scanned (h : At final (handed r p log) pos discarding) :
    Scanned final r p ⟨[], pos, pos, discarding, false, log⟩ where
  inside := h.inside
  skip := rfl
  lines := h.lines
  open_ hd := ⟨(h.start hd).symm, Nat.zero_le _, rfl⟩
  tooLong hd := ⟨rfl, rfl, h.tooLong hd⟩

/-- **What one byte does.** -/
theorem Scanned.byte (h : Scanned final r p s) (hroot : args.root.path = r)
    (hpath : args.candidate.path = p) {b : UInt8} (hb : final[s.position]? = some b) :
    Scanned final r p (scanByte parsers args path s b) ∧
      (scanByte parsers args path s b).position = s.position + 1 := by
  have htake : final.take (s.position + 1) = final.take s.position ++ [b] := by
    rw [List.take_add_one, hb]
    rfl
  have hinside : s.position + 1 ≤ final.length := by
    obtain ⟨hlt, -⟩ := List.getElem?_eq_some_iff.mp hb
    exact hlt
  unfold scanByte
  dsimp only
  rw [if_neg (by rw [h.skip]; exact Bool.false_ne_true)]
  -- the line before this byte was too long, or it was not
  split
  · rename_i hd
    obtain ⟨hline, -, hlong⟩ := h.tooLong hd
    split
    · -- the long line ends
      rename_i hnewline
      subst hnewline
      have hopen : openLine (final.take (s.position + 1)) = [] := by
        unfold openLine
        rw [htake, Lines.unfinished_concat_sep]
      refine ⟨⟨hinside, h.skip, ?_, fun _ => ⟨hline.trans hopen.symm, ?_, ?_⟩,
        (fun hno => nomatch hno)⟩, rfl⟩
      · dsimp only
        rw [htake, boundedLines_newline, h.lines, List.filter_cons_of_neg, List.filter_nil,
          List.append_nil]
        rw [decide_eq_true_eq]
        omega
      · dsimp only
        rw [hline]
        exact Nat.zero_le _
      · dsimp only
        rw [hline]
        rfl
    -- the long line goes on
    · rename_i hother
      refine ⟨⟨hinside, h.skip, ?_, fun hno => ?_, fun _ => ⟨hline, rfl, ?_⟩⟩, rfl⟩
      · dsimp only
        rw [htake, boundedLines_other hother, h.lines]
      · rw [hd] at hno
        cases hno
      · dsimp only
        unfold openLine at hlong ⊢
        rw [htake, Lines.unfinished_concat hother, List.length_append]
        omega
  · rename_i hd
    rw [Bool.not_eq_true] at hd
    obtain ⟨hline, hfits, hcomplete⟩ := h.open_ hd
    -- the byte is a line feed, or it is not
    split
    · -- a line ends
      rename_i hnewline
      subst hnewline
      refine ⟨⟨hinside, h.skip, ?_, fun _ => ⟨?_, Nat.zero_le _, rfl⟩, fun hno => ?_⟩, rfl⟩
      · dsimp only
        rw [hroot, hpath, handed_own, htake, boundedLines_newline, h.lines, ← hline,
          List.filter_cons_of_pos (by simpa using hfits), List.filter_nil]
      · dsimp only
        unfold openLine
        rw [htake, Lines.unfinished_concat_sep]
      · rw [hd] at hno
        cases hno
    · rename_i hother
      have hopen : openLine (final.take (s.position + 1)) = s.line ++ [b] := by
        unfold openLine at hline ⊢
        rw [htake, Lines.unfinished_concat hother, hline]
      have hlines : handed r p s.log = boundedLines (final.take (s.position + 1)) := by
        rw [htake, boundedLines_other hother, h.lines]
      -- the line has room for the byte, or it becomes too long
      split
      · rename_i hroom
        refine ⟨⟨hinside, h.skip, hlines, fun _ => ⟨hopen.symm, ?_, ?_⟩, fun hno => ?_⟩, rfl⟩
        · dsimp only
          rw [List.length_append, List.length_singleton]
          omega
        · dsimp only
          rw [List.length_append, List.length_singleton, hcomplete]
          omega
        · rw [hd] at hno
          cases hno
      · rename_i hfull
        refine ⟨⟨hinside, h.skip, hlines, (fun hno => nomatch hno), fun _ => ⟨rfl, rfl, ?_⟩⟩, rfl⟩
        dsimp only
        rw [hopen, List.length_append, List.length_singleton]
        omega

/-- **Step lemma.** A chunk is scanned from where the last one ended. -/
theorem Scanned.chunk {chunk : List UInt8} (h : Scanned final r p s) (hroot : args.root.path = r)
    (hpath : args.candidate.path = p) (hchunk : chunk <+: final.drop s.position) :
    Scanned final r p (chunk.foldl (scanByte parsers args path) s) ∧
      (chunk.foldl (scanByte parsers args path) s).position = s.position + chunk.length := by
  induction chunk generalizing s with
  | nil => exact ⟨h, rfl⟩
  | cons b chunk ih =>
    obtain ⟨rest, hrest⟩ := hchunk
    have hb : final[s.position]? = some b := by
      rw [← List.head?_drop, ← hrest]
      rfl
    have hbyte : Scanned final r p (scanByte parsers args path s b) ∧
        (scanByte parsers args path s b).position = s.position + 1 := h.byte hroot hpath hb
    obtain ⟨hnext, hposition⟩ := hbyte
    have hdrop : chunk <+: final.drop (scanByte parsers args path s b).position := by
      refine ⟨rest, ?_⟩
      rw [hposition, ← List.drop_drop, ← hrest]
      rfl
    obtain ⟨hscanned, hlen⟩ := ih hnext hdrop
    refine ⟨hscanned, ?_⟩
    rw [List.foldl_cons, hlen, hposition, List.length_cons]
    omega

/-! ### Files

A file is read at some length; what it has then is a beginning of what it will have. -/

/-- What a file has when it is read: its bytes are those of the file so far. -/
structure Prefix (final content : List UInt8) (len : ℕ) : Prop where
  part : content <+: final
  len : len ≤ content.length

/-- What `consume` keeps of an offset. -/
structure Moved (final : List UInt8) (r p : Path) (len dev ino : ℕ) (c : Consumed) : Prop where
  dev : c.offset.dev = dev
  ino : c.offset.ino = ino
  len : c.offset.pos ≤ len
  pos : At final (handed r p c.log) c.offset.pos c.offset.discarding

variable {content : List UInt8} {reads : List Read} {c : Consumed} {n dev ino : ℕ}

/-- The lines end no later than the scan. -/
theorem Scanned.complete_le (h : Scanned final r p s) : s.complete ≤ s.position := by
  cases hd : s.discarding with
  | true => exact le_of_eq (h.tooLong hd).2.1
  | false =>
    rw [(h.open_ hd).2.2]
    exact Nat.sub_le _ _

/-- What a scan leaves is a move of the offset of its file. -/
theorem finish_moved (h : Scanned final r p s) (hlen : s.position ≤ args.candidate.len)
    (hdev : c.offset.dev = dev) (hino : c.offset.ino = ino) :
    Moved final r p args.candidate.len dev ino (finish args s c).2 where
  dev := hdev
  ino := hino
  len := le_trans h.complete_le hlen
  pos := h.at

/-- A scan that is stored as it stands moves the offset of its file. -/
theorem Scanned.moved (h : Scanned final r p s) (hlen : s.position ≤ n)
    (hdev : c.offset.dev = dev) (hino : c.offset.ino = ino)
    (hpos : c.offset.pos = s.complete) (hdiscarding : c.offset.discarding = s.discarding)
    (hlog : c.log = s.log) : Moved final r p n dev ino c := by
  refine ⟨hdev, hino, ?_, ?_⟩
  · rw [hpos]
    exact le_trans h.complete_le hlen
  · rw [hpos, hdiscarding, hlog]
    exact h.at

/-- **Wherever a call ends**, the offset is where it may be. -/
theorem readLoop_moved (hroot : args.root.path = r) (hpath : args.candidate.path = p)
    (hfile : Prefix final content args.candidate.len) (h : Scanned final r p s)
    (hlen : s.position ≤ args.candidate.len) (hdev : c.offset.dev = dev)
    (hino : c.offset.ino = ino) (hpos : c.offset.pos = s.complete)
    (hdiscarding : c.offset.discarding = s.discarding) (hlog : c.log = s.log) :
    Moved final r p args.candidate.len dev ino
      (readLoop parsers args path content reads n s c).2 := by
  -- induction on the reads that are left, over every state of the scan
  induction reads generalizing n s c with
  | nil =>
    unfold readLoop
    split
    · exact h.moved hlen hdev hino hpos hdiscarding hlog
    · exact finish_moved h hlen hdev hino
  | cons read reads ih =>
    unfold readLoop
    split
    · rename_i hmore
      cases read with
      | cancelled => exact h.moved hlen hdev hino hpos hdiscarding hlog
      | failed =>
        have hfailed : Moved final r p args.candidate.len dev ino
            (finish args s { c with diagnostics := note c.diagnostics .io }).2 :=
          finish_moved h hlen hdev hino
        exact hfailed
      | data k =>
        dsimp only
        generalize hchunk : (content.drop s.position).take
          (min k (allowed args n s.position c.budget)) = chunk
        -- what was read is the next part of the file and stays before its end
        have hpart : chunk <+: final.drop s.position := by
          rw [← hchunk]
          exact (List.take_prefix _ _).trans (hfile.part.drop _)
        have hsize : chunk.length ≤ args.candidate.len - s.position := by
          rw [← hchunk, List.length_take]
          unfold allowed
          omega
        split
        · exact finish_moved h hlen hdev hino
        · obtain ⟨hscanned, hposition⟩ := h.chunk hroot hpath hpart
          have hinside : (chunk.foldl (scanByte parsers args path) s).position ≤
              args.candidate.len := by
            rw [hposition]
            omega
          apply ih hscanned hinside
          · exact hdev
          · exact hino
          · rfl
          · rfl
          · rfl
    · exact finish_moved h hlen hdev hino

/-- **`consume`** hands out the lines from the offset on and moves it behind them. -/
theorem consume_moved (args : Consume) {seeks : Bool} (hroot : args.root.path = r)
    (hpath : args.candidate.path = p)
    (hskip : args.skipFirst = false) (hfile : Prefix final content args.candidate.len)
    (h : At final (handed r p c.log) c.offset.pos c.offset.discarding)
    (hlen : c.offset.pos ≤ args.candidate.len) :
    Moved final r p args.candidate.len c.offset.dev c.offset.ino
      (consume parsers args content seeks reads c).2 := by
  unfold consume
  split
  · exact ⟨rfl, rfl, hlen, h⟩
  · split
    · exact ⟨rfl, rfl, hlen, h⟩
    · rw [hskip]
      exact readLoop_moved hroot hpath hfile h.scanned hlen rfl rfl rfl rfl rfl

/-! ### What is parsed

Every line that is handed out is parsed with the file and the place it came from. -/

/-- The lines that a call parses are added in order, with what the tracker gets of them. -/
def Parses (parsers : Parsers) (args : Consume) (log log' : List Entry) : Prop :=
  ∃ new, log' = log ++ new ∧ ∀ e ∈ new, ∃ text line, utf8 args.candidate.path = some text ∧
    e = ⟨args.root.path, args.candidate.path, line,
      ingestOf parsers args.root args.now args.since text line⟩

/-- Nothing is logged. -/
theorem Parses.refl (log : List Entry) : Parses parsers args log log :=
  ⟨[], (List.append_nil _).symm, fun _ he => nomatch he⟩

/-- Two logs are one. -/
theorem Parses.trans {log₁ log₂ log₃ : List Entry} (h₁ : Parses parsers args log₁ log₂)
    (h₂ : Parses parsers args log₂ log₃) : Parses parsers args log₁ log₃ := by
  obtain ⟨new₁, rfl, hnew₁⟩ := h₁
  obtain ⟨new₂, rfl, hnew₂⟩ := h₂
  refine ⟨new₁ ++ new₂, List.append_assoc _ _ _, ?_⟩
  intro e he
  rcases List.mem_append.mp he with he | he
  · exact hnew₁ e he
  · exact hnew₂ e he

/-- A byte logs a line of its file, parsed, or none. -/
theorem scanByte_parses (hpath : utf8 args.candidate.path = some path) (b : UInt8) :
    Parses parsers args s.log (scanByte parsers args path s b).log := by
  unfold scanByte
  dsimp only
  split
  · split
    · exact .refl _
    · exact .refl _
  · split
    · split
      · exact .refl _
      · exact .refl _
    · split
      · refine ⟨_, rfl, ?_⟩
        intro e he
        exact ⟨path, s.line, hpath, List.mem_singleton.mp he⟩
      · split
        · exact .refl _
        · exact .refl _

/-- A chunk logs lines of its file, parsed. -/
theorem scan_parses (hpath : utf8 args.candidate.path = some path) (chunk : List UInt8) :
    Parses parsers args s.log (chunk.foldl (scanByte parsers args path) s).log := by
  induction chunk generalizing s with
  | nil => exact .refl _
  | cons b chunk ih => exact (scanByte_parses hpath b).trans ih

/-- The loop over all chunks logs lines of its file, parsed. -/
theorem readLoop_parses (hpath : utf8 args.candidate.path = some path) (hlog : c.log = s.log) :
    Parses parsers args c.log (readLoop parsers args path content reads n s c).2.log := by
  induction reads generalizing n s c with
  | nil =>
    unfold readLoop
    split
    · exact .refl _
    · rw [hlog]
      exact .refl _
  | cons read reads ih =>
    unfold readLoop
    split
    · cases read with
      | cancelled => exact .refl _
      | failed =>
        rw [hlog]
        exact .refl _
      | data k =>
        dsimp only
        split
        · rw [hlog]
          exact .refl _
        · rw [hlog]
          exact (scan_parses hpath _).trans (ih rfl)
    · rw [hlog]
      exact .refl _

/-- `consume` logs lines of its file, parsed. -/
theorem consume_parses {seeks : Bool} :
    Parses parsers args c.log (consume parsers args content seeks reads c).2.log := by
  unfold consume
  split
  · exact .refl _
  · split
    · exact .refl _
    · rename_i hpath
      exact readLoop_parses hpath rfl

/-- The lines of another file stay as they are. -/
theorem Parses.handed_other {log' : List Entry} (h : Parses parsers args log log')
    (hother : args.root.path ≠ r ∨ args.candidate.path ≠ p) : handed r p log' = handed r p log := by
  obtain ⟨new, rfl, hnew⟩ := h
  rw [handed_append]
  have hnone : handed r p new = [] := by
    unfold handed
    rw [List.map_eq_nil_iff, List.filter_eq_nil_iff]
    intro e he
    obtain ⟨text, line, -, rfl⟩ := hnew e he
    rw [Bool.and_eq_true, decide_eq_true_eq, decide_eq_true_eq, not_and_or]
    exact hother
  rw [hnone, List.append_nil]

/-! ### Passes

What a pass does to one file, while it visits others. -/

/-- What is known of the file `p` of the root `r`, which was seen at the length `bound` last: where
    its offset is, and what the tracker got of its lines. -/
structure Tracks (parsers : Parsers) (final : List UInt8) (r p : Path) (dev ino bound : ℕ)
    (offset : Option Offset) (log : List Entry) : Prop where
  untracked : offset = none → handed r p log = []
  tracked : ∀ o, offset = some o → o.dev = dev ∧ o.ino = ino ∧ o.pos ≤ bound ∧
    At final (handed r p log) o.pos o.discarding
  ingests : ∀ e ∈ log, e.root = r → e.path = p → ∃ root now text, root.path = r ∧
    utf8 p = some text ∧ e.ingest = ingestOf parsers root now none text e.line

/-- A file as it is seen: the same one, longer than before. -/
structure Fits (final : List UInt8) (dev ino : ℕ) (v : Visit) : Prop where
  dev : v.candidate.dev = dev
  ino : v.candidate.ino = ino
  file : Prefix final v.content v.candidate.len

variable {bound : ℕ} {offset : Option Offset} {root : Root} {now : DateTime} {w : Walk} {v : Visit}

/-- What is logged for a file is what its parser makes of the line. -/
theorem Tracks.ingested {log' : List Entry}
    (h : Tracks parsers final r p dev ino bound offset log)
    (hparses : Parses parsers args log log') (hsince : args.since = none) :
    ∀ e ∈ log', e.root = r → e.path = p → ∃ root now text, root.path = r ∧
      utf8 p = some text ∧ e.ingest = ingestOf parsers root now none text e.line := by
  obtain ⟨new, rfl, hnew⟩ := hparses
  intro e he hroot hpath
  rcases List.mem_append.mp he with he | he
  · exact h.ingests e he hroot hpath
  · obtain ⟨text, line, htext, rfl⟩ := hnew e he
    refine ⟨args.root, args.now, text, hroot, hpath ▸ htext, ?_⟩
    rw [← hsince]

/-- Another file changes nothing. -/
theorem Tracks.other {log' : List Entry} (h : Tracks parsers final r p dev ino bound offset log)
    (hparses : Parses parsers args log log') (hsince : args.since = none)
    (hother : args.root.path ≠ r ∨ args.candidate.path ≠ p) :
    Tracks parsers final r p dev ino bound offset log' := by
  have hsame := hparses.handed_other hother
  refine ⟨?_, ?_, h.ingested hparses hsince⟩
  · rw [hsame]
    exact h.untracked
  · rw [hsame]
    exact h.tracked

/-- **What the walk does to a file**: it stores an offset, the one it starts from or the one that
    `consume` leaves. -/
theorem readFile_cases (parsers : Parsers) (root : Root) (now : DateTime) (w : Walk) (v : Visit) :
    (readFile parsers root now w v).2.seen = w.seen ++ [v.candidate.path] ∧
    (readFile parsers root now w v).1 ≠ .stop ∧
    ∃ o, (∀ k, (readFile parsers root now w v).2.offsets.get? k =
        if k = v.candidate.path then some o else w.offsets.get? k) ∧
      ((o = startOffset w.offsets v.candidate ∧ (readFile parsers root now w v).2.log = w.log) ∨
      ∃ c, c.offset = startOffset w.offsets v.candidate ∧ c.log = w.log ∧
        c.offset.pos ≤ v.candidate.len ∧
        o = (consume parsers ⟨root, v.candidate, now, false, none⟩ v.content v.seeks v.reads
          c).2.offset ∧
        (readFile parsers root now w v).2.log = (consume parsers
          ⟨root, v.candidate, now, false, none⟩ v.content v.seeks v.reads c).2.log) := by
  have hinsert : ∀ (o o' : Offset) k,
      ((w.offsets.insert v.candidate.path o).insert v.candidate.path o').get? k =
        if k = v.candidate.path then some o' else w.offsets.get? k := by
    intro o o' k
    rw [Table.get?_insert, Table.get?_insert]
    split
    · rfl
    · rfl
  unfold readFile
  dsimp only
  split
  · exact ⟨rfl, (fun h => by cases h), _, fun k => Table.get?_insert, .inl ⟨rfl, rfl⟩⟩
  · rename_i hmore
    split
    · exact ⟨rfl, (fun h => by cases h), _, fun k => Table.get?_insert, .inl ⟨rfl, rfl⟩⟩
    · have hle : (startOffset w.offsets v.candidate).pos ≤ v.candidate.len := by omega
      split
      · exact ⟨rfl, (fun h => by cases h), _, hinsert _ _, .inr ⟨_, rfl, rfl, hle, rfl, rfl⟩⟩
      · exact ⟨rfl, (fun h => by cases h), _, hinsert _ _, .inr ⟨_, rfl, rfl, hle, rfl, rfl⟩⟩

/-- Where the file is read on. -/
theorem Tracks.start {offsets : Table Path Offset} {c : Candidate}
    (h : Tracks parsers final r p dev ino bound (offsets.get? p) log) (hpath : c.path = p)
    (hdev : c.dev = dev) (hino : c.ino = ino) (hbound : bound ≤ c.len) :
    (startOffset offsets c).dev = dev ∧ (startOffset offsets c).ino = ino ∧
      (startOffset offsets c).pos ≤ c.len ∧
      At final (handed r p log) (startOffset offsets c).pos (startOffset offsets c).discarding := by
  unfold startOffset
  dsimp only
  rw [hpath]
  cases hget : offsets.get? p with
  | none =>
    have hempty : At final (handed r p log) 0 false := by
      rw [h.untracked hget]
      exact ⟨Nat.zero_le _, rfl, fun _ => rfl, (fun hno => nomatch hno)⟩
    rw [Option.getD_none, if_neg (by simp)]
    exact ⟨hdev, hino, Nat.zero_le _, hempty⟩
  | some o =>
    obtain ⟨hod, hoi, hpos, hat⟩ := h.tracked o hget
    have hkeep : ¬(decide (o.dev ≠ c.dev) || decide (o.ino ≠ c.ino) || decide (c.len < o.pos)) =
        true := by
      simp only [Bool.or_eq_true, decide_eq_true_eq]
      omega
    rw [Option.getD_some, if_neg hkeep]
    exact ⟨hod, hoi, by omega, hat⟩

/-- The walk to the file itself. -/
theorem Tracks.readFile (h : Tracks parsers final r p dev ino bound (w.offsets.get? p) w.log)
    (hroot : root.path = r) (hpath : v.candidate.path = p) (hfits : Fits final dev ino v)
    (hbound : bound ≤ v.candidate.len) :
    Tracks parsers final r p dev ino v.candidate.len
      ((Activity.readFile parsers root now w v).2.offsets.get? p)
      (Activity.readFile parsers root now w v).2.log := by
  obtain ⟨hdev, hino, hlen, hat⟩ := h.start hpath hfits.dev hfits.ino hbound
  obtain ⟨-, -, o, hget, hcase⟩ := readFile_cases parsers root now w v
  rw [hget p, if_pos hpath.symm]
  rcases hcase with ⟨rfl, hlog⟩ | ⟨c, hoffset, hclog, hcpos, rfl, hlog⟩
  · rw [hlog]
    refine ⟨(fun hno => nomatch hno), ?_, h.ingests⟩
    intro o ho
    obtain rfl := Option.some.inj ho
    exact ⟨hdev, hino, hlen, hat⟩
  · rw [hlog]
    have hmoved : Moved final r p v.candidate.len c.offset.dev c.offset.ino
        (consume parsers ⟨root, v.candidate, now, false, none⟩ v.content v.seeks v.reads c).2 := by
      refine consume_moved ⟨root, v.candidate, now, false, none⟩ hroot hpath rfl hfits.file ?_ hcpos
      rw [hclog, hoffset]
      exact hat
    refine ⟨(fun hno => nomatch hno), ?_, ?_⟩
    · intro o ho
      obtain rfl := Option.some.inj ho
      refine ⟨?_, ?_, hmoved.len, hmoved.pos⟩
      · rw [hmoved.dev, hoffset, hdev]
      · rw [hmoved.ino, hoffset, hino]
    · have hparses : Parses parsers ⟨root, v.candidate, now, false, none⟩ w.log
          (consume parsers ⟨root, v.candidate, now, false, none⟩ v.content v.seeks v.reads
            c).2.log := by
        rw [← hclog]
        exact consume_parses
      exact h.ingested hparses rfl

/-- The walk to another file. -/
theorem Tracks.readFile_other {offset : Option Offset}
    (h : Tracks parsers final r p dev ino bound offset w.log)
    (hother : root.path ≠ r ∨ v.candidate.path ≠ p) :
    Tracks parsers final r p dev ino bound offset
    (Activity.readFile parsers root now w v).2.log := by
  obtain ⟨-, -, o, -, hcase⟩ := readFile_cases parsers root now w v
  rcases hcase with ⟨-, hlog⟩ | ⟨c, -, hclog, -, -, hlog⟩
  · rw [hlog]
    exact h
  · rw [hlog]
    rw [← hclog] at h
    exact h.other consume_parses rfl hother

/-- **What one turn of the loop over the files does**: the pass is cancelled before the file, the
    limit of files ends the loop, or the file is read. -/
theorem visitFile_cases (parsers : Parsers) (root : Root) (now : DateTime) (w : Walk) (v : Visit) :
    visitFile parsers root now w v = (.cancelled, w) ∨
    visitFile parsers root now w v = (.stop, { w with diagnostics := note w.diagnostics .limit }) ∨
    ∃ tracked, visitFile parsers root now w v =
      readFile parsers root now { w with tracked := tracked } v := by
  unfold visitFile
  split
  · exact .inl rfl
  · right
    split
    · split
      · exact .inl rfl
      · exact .inr ⟨_, rfl⟩
    · exact .inr ⟨w.tracked, rfl⟩

/-- The lengths at which a listing has the file. -/
def lengths (p : Path) (files : List Visit) : List ℕ :=
  (files.filter fun v => v.candidate.path = p).map (·.candidate.len)

/-- The loop over the files of the root. -/
theorem Tracks.visitFiles (now : DateTime) {files : List Visit} {rest : List ℕ}
    (h : Tracks parsers final r p dev ino bound (w.offsets.get? p) w.log) (hroot : root.path = r)
    (hfits : ∀ v ∈ files, v.candidate.path = p → Fits final dev ino v)
    (hgrows : (bound :: (lengths p files ++ rest)).Pairwise (· ≤ ·)) :
    ∃ bound', Tracks parsers final r p dev ino bound'
        ((Activity.visitFiles parsers root now files w).2.offsets.get? p)
        (Activity.visitFiles parsers root now files w).2.log ∧
      (bound' :: rest).Pairwise (· ≤ ·) := by
  induction files generalizing w bound with
  | nil => exact ⟨bound, h, hgrows⟩
  | cons v files ih =>
    have hskip : (bound :: rest).Pairwise (· ≤ ·) :=
      hgrows.sublist ((List.sublist_append_right _ _).cons_cons _)
    unfold Activity.visitFiles
    rcases visitFile_cases parsers root now w v with heq | heq | ⟨tracked, heq⟩
    · rw [heq]
      exact ⟨bound, h, hskip⟩
    · rw [heq]
      exact ⟨bound, h, hskip⟩
    · rw [heq]
      have hsub : ∀ v' ∈ files, v'.candidate.path = p → Fits final dev ino v' :=
        fun v' hv' => hfits v' (List.mem_cons_of_mem _ hv')
      -- the walk after the file
      have hnext : ∃ bound', Tracks parsers final r p dev ino bound'
          ((Activity.readFile parsers root now { w with tracked := tracked } v).2.offsets.get? p)
          (Activity.readFile parsers root now { w with tracked := tracked } v).2.log ∧
          (bound' :: (lengths p files ++ rest)).Pairwise (· ≤ ·) := by
        by_cases hpath : v.candidate.path = p
        · have hcons : lengths p (v :: files) = v.candidate.len :: lengths p files := by
            simp [lengths, hpath]
          rw [hcons] at hgrows
          obtain ⟨hle, hrest⟩ := List.pairwise_cons.mp hgrows
          refine ⟨v.candidate.len, ?_, hrest⟩
          exact Tracks.readFile (w := { w with tracked := tracked }) h hroot hpath
            (hfits v List.mem_cons_self hpath) (hle _ List.mem_cons_self)
        · have hcons : lengths p (v :: files) = lengths p files := by
            simp [lengths, hpath]
          rw [hcons] at hgrows
          refine ⟨bound, ?_, hgrows⟩
          obtain ⟨-, -, o, hget, -⟩ := readFile_cases parsers root now
            { w with tracked := tracked } v
          rw [hget p, if_neg (Ne.symm hpath)]
          exact Tracks.readFile_other (w := { w with tracked := tracked }) h (.inr hpath)
      obtain ⟨bound', htracks, hgrows'⟩ := hnext
      cases hturn : (Activity.readFile parsers root now { w with tracked := tracked } v) with
      | mk turn w' =>
        rw [hturn] at htracks
        cases turn with
        | next => exact ih htracks hsub hgrows'
        | stop =>
          exact ⟨bound', htracks, hgrows'.sublist ((List.sublist_append_right _ _).cons_cons _)⟩
        | cancelled =>
          exact ⟨bound', htracks, hgrows'.sublist ((List.sublist_append_right _ _).cons_cons _)⟩

/-- The loop over the files of another root. -/
theorem Tracks.visitFiles_other {files : List Visit} {offset : Option Offset}
    (h : Tracks parsers final r p dev ino bound offset w.log) (hroot : root.path ≠ r) :
    Tracks parsers final r p dev ino bound offset
      (Activity.visitFiles parsers root now files w).2.log := by
  induction files generalizing w with
  | nil => exact h
  | cons v files ih =>
    unfold Activity.visitFiles
    rcases visitFile_cases parsers root now w v with heq | heq | ⟨tracked, heq⟩
    · rw [heq]
      exact h
    · rw [heq]
      exact h
    · rw [heq]
      have hnext : Tracks parsers final r p dev ino bound offset
          (Activity.readFile parsers root now { w with tracked := tracked } v).2.log :=
        Tracks.readFile_other (w := { w with tracked := tracked }) h (.inl hroot)
      cases hturn : (Activity.readFile parsers root now { w with tracked := tracked } v) with
      | mk turn w' =>
        rw [hturn] at hnext
        cases turn with
        | next => exact ih hnext
        | stop => exact hnext
        | cancelled => exact hnext

/-- A loop that ends with nothing noted has seen every file. -/
theorem visitFiles_seen {files : List Visit}
    (h : (visitFiles parsers root now files w).1 = false)
    (hcomplete : (visitFiles parsers root now files w).2.diagnostics.incomplete = false) :
    (∀ k ∈ w.seen, k ∈ (visitFiles parsers root now files w).2.seen) ∧
      ∀ v ∈ files, v.candidate.path ∈ (visitFiles parsers root now files w).2.seen := by
  induction files generalizing w with
  | nil => exact ⟨fun k hk => hk, fun v hv => nomatch hv⟩
  | cons v files ih =>
    unfold visitFiles at h hcomplete ⊢
    rcases visitFile_cases parsers root now w v with heq | heq | ⟨tracked, heq⟩
    · rw [heq] at h
      cases h
    · rw [heq] at hcomplete
      cases hcomplete
    · rw [heq] at h hcomplete ⊢
      obtain ⟨hseen, hstop, -⟩ := readFile_cases parsers root now { w with tracked := tracked } v
      cases hturn : (readFile parsers root now { w with tracked := tracked } v) with
      | mk turn w' =>
        rw [hturn] at h hcomplete hseen hstop
        cases turn with
        | next =>
          obtain ⟨hkeep, hfiles⟩ := ih h hcomplete
          dsimp only at hseen
          refine ⟨fun k hk => hkeep k ?_, fun v' hv' => ?_⟩
          · rw [hseen]
            exact List.mem_append_left _ hk
          · rcases List.mem_cons.mp hv' with rfl | hv'
            · refine hkeep _ ?_
              rw [hseen]
              exact List.mem_append_right _ (List.mem_singleton.mpr rfl)
            · exact hfiles v' hv'
        | stop => exact absurd rfl hstop
        | cancelled => cases h

/-! ### Runs

By induction on the passes; a file that a pass does not reach keeps its offset. -/

/-- The offset that is stored for a file. -/
def offsetOf (s : State) (r p : Path) : Option Offset := (s.roots.get? r).bind (·.get? p)

/-- A pass sees the file wherever it lists its root, as the same file. -/
def Sees (final : List UInt8) (r p : Path) (dev ino : ℕ) (v : RootVisit) : Prop :=
  v.root.path = r → ∀ files, v.files = some files →
    (∃ v ∈ files, v.candidate.path = p) ∧ ∀ v ∈ files, v.candidate.path = p → Fits final dev ino v

/-- The lengths at which the file is seen under a root. -/
def rootLengths (r p : Path) (v : RootVisit) : List ℕ :=
  if v.root.path = r then lengths p (v.files.getD []) else []

/-- The lengths at which a pass sees the file. -/
def seenLengths (r p : Path) (sample : Sample) : List ℕ := sample.roots.flatMap (rootLengths r p)

/-- Diagnostics are no part of the state. -/
@[simp] theorem state_withDiagnostics (pass : Pass) (provider : Provider) (d : Diagnostics) :
    (pass.withDiagnostics provider d).state = pass.state := by
  cases provider
  · rfl
  · rfl

/-- The offsets of one root are replaced. -/
theorem offsetOf_insert {s : State} {offsets : Table Path Offset} {k : Path} {log : List Entry} :
    offsetOf ⟨s.roots.insert k offsets, log⟩ r p =
      if r = k then offsets.get? p else offsetOf s r p := by
  unfold offsetOf
  rw [Table.get?_insert]
  split
  · rfl
  · rfl

/-- An offset of the root is the one in its table. -/
theorem offsetOf_getD (s : State) (r p : Path) :
    offsetOf s r p = ((s.roots.get? r).getD .empty).get? p := by
  unfold offsetOf
  cases s.roots.get? r with
  | none => rfl
  | some offsets => rfl

/-- One turn of the loop over the roots. -/
theorem Tracks.visitRoot (now : DateTime) {pass : Pass} {v : RootVisit} {rest : List ℕ}
    (h : Tracks parsers final r p dev ino bound (offsetOf pass.state r p) pass.state.log)
    (hsees : Sees final r p dev ino v)
    (hgrows : (bound :: (rootLengths r p v ++ rest)).Pairwise (· ≤ ·)) :
    ∃ bound', Tracks parsers final r p dev ino bound'
        (offsetOf (Activity.visitRoot parsers now pass v).2.state r p)
        (Activity.visitRoot parsers now pass v).2.state.log ∧
      (bound' :: rest).Pairwise (· ≤ ·) := by
  -- a root that is not read leaves the rest of the lengths as they are
  have hskip : (bound :: rest).Pairwise (· ≤ ·) :=
    hgrows.sublist ((List.sublist_append_right _ _).cons_cons _)
  unfold Activity.visitRoot
  split
  · exact ⟨bound, h, hskip⟩
  -- the root is not listed
  · split
    · refine ⟨bound, ?_, hskip⟩
      rw [state_withDiagnostics]
      exact h
    · dsimp only
      split
      · -- the listing was cancelled
        refine ⟨bound, ?_, hskip⟩
        rw [offsetOf_insert]
        split
        · rename_i heq
          rw [← heq, ← offsetOf_getD]
          exact h
        · exact h
      · rename_i files hfiles
        dsimp only
        rw [offsetOf_insert]
        -- is it the root of the file?
        split
        · rename_i heq
          have hroot : v.root.path = r := heq.symm
          obtain ⟨⟨own, hown, hpath⟩, hfits⟩ := hsees hroot files hfiles
          rw [rootLengths, if_pos hroot, hfiles, Option.getD_some] at hgrows
          rw [offsetOf_getD, ← hroot] at h
          generalize hwalk : Walk.mk ((pass.state.roots.get? v.root.path).getD .empty) []
            (pass.state.roots.values.map (·.entries.length)).sum pass.state.log pass.budget
            { listed v (pass.diagnostics v.root.provider) with
              scannedFiles := (listed v (pass.diagnostics v.root.provider)).scannedFiles +
                files.length } = walk
          have hstart : Tracks parsers final r p dev ino bound (walk.offsets.get? p) walk.log := by
            rw [← hwalk, ← hroot]
            exact h
          obtain ⟨bound', htracks, hgrows'⟩ := hstart.visitFiles now hroot hfits hgrows
          refine ⟨bound', ?_, hgrows'⟩
          split
          · -- offsets of files that were not seen are dropped, and this one was seen
            rename_i hdrop
            simp only [Bool.and_eq_true, Bool.not_eq_true'] at hdrop
            obtain ⟨⟨hnot, -⟩, hcomplete⟩ := hdrop
            obtain ⟨-, hall⟩ := visitFiles_seen hnot hcomplete
            have hmem := hall own hown
            rw [hpath] at hmem
            have hsame : ((Activity.visitFiles parsers v.root now files walk).2.offsets.retain
                fun path _ => (Activity.visitFiles parsers v.root now files walk).2.seen.contains
                  path).get? p = (Activity.visitFiles parsers v.root now files walk).2.offsets.get?
                    p := by
              apply Option.ext
              intro o
              rw [Table.get?_retain, and_iff_left (List.contains_iff_mem.mpr hmem)]
            rw [hsame]
            exact htracks
          · exact htracks
        -- other roots have offsets of their own
        · rename_i hne
          refine ⟨bound, ?_, hskip⟩
          exact Tracks.visitFiles_other (w := ⟨_, _, _, _, _, _⟩) h (Ne.symm hne)

/-- The loop over the roots. -/
theorem Tracks.visitRoots (now : DateTime) (pass : Pass) {roots : List RootVisit} {rest : List ℕ}
    (h : Tracks parsers final r p dev ino bound (offsetOf pass.state r p) pass.state.log)
    (hsees : ∀ v ∈ roots, Sees final r p dev ino v)
    (hgrows : (bound :: (roots.flatMap (rootLengths r p) ++ rest)).Pairwise (· ≤ ·)) :
    ∃ bound', Tracks parsers final r p dev ino bound'
        (offsetOf (Activity.visitRoots parsers now roots pass).state r p)
        (Activity.visitRoots parsers now roots pass).state.log ∧
      (bound' :: rest).Pairwise (· ≤ ·) := by
  induction roots generalizing pass bound with
  | nil => exact ⟨bound, h, hgrows⟩
  | cons v roots ih =>
    rw [List.flatMap_cons, List.append_assoc] at hgrows
    obtain ⟨bound', htracks, hgrows'⟩ := h.visitRoot now (hsees v List.mem_cons_self) hgrows
    unfold Activity.visitRoots
    cases hturn : Activity.visitRoot parsers now pass v with
    | mk cancelled pass' =>
      rw [hturn] at htracks
      cases cancelled with
      | true =>
        exact ⟨bound', htracks, hgrows'.sublist ((List.sublist_append_right _ _).cons_cons _)⟩
      | false => exact ih _ htracks (fun v hv => hsees v (List.mem_cons_of_mem _ hv)) hgrows'

/-- **A run keeps what is known of the file.** -/
theorem Tracks.run {s : State} {samples : List Sample}
    (h : Tracks parsers final r p dev ino bound (offsetOf s r p) s.log)
    (hsees : ∀ sample ∈ samples, ∀ v ∈ sample.roots, Sees final r p dev ino v)
    (hgrows : (bound :: samples.flatMap (seenLengths r p)).Pairwise (· ≤ ·)) :
    ∃ bound', Tracks parsers final r p dev ino bound'
      (offsetOf (samples.foldl (sampleSync parsers) s) r p)
      (samples.foldl (sampleSync parsers) s).log := by
  induction samples generalizing s bound with
  | nil => exact ⟨bound, h⟩
  | cons sample samples ih =>
    rw [List.flatMap_cons] at hgrows
    obtain ⟨bound', htracks, hgrows'⟩ := Tracks.visitRoots sample.now
      ⟨s, sample.budget, sample.issues.foldl note ⟨true, none, false, 0, 0, 0⟩,
        ⟨true, none, false, 0, 0, 0⟩⟩ h (hsees sample List.mem_cons_self) hgrows
    exact ih htracks (fun sample hsample => hsees sample (List.mem_cons_of_mem _ hsample)) hgrows'

/-- **Every line is counted once.**  Over every run of passes that see the file at growing
    lengths, whatever they may read and wherever they are cancelled, the lines that were parsed
    are the lines of at most 8 MiB before the offset, in order; the tracker got what they tell;
    and the offset is at the start, after a newline, or in a line that is too long. -/
theorem lines_once (parsers : Parsers) (s : State) (samples : List Sample) (r p : Path)
    (dev ino : ℕ) (final : List UInt8) (huntouched : handed r p s.log = [])
    (hstart : ∀ o, offsetOf s r p = some o → o = ⟨0, dev, ino, false⟩)
    (hsees : ∀ sample ∈ samples, ∀ v ∈ sample.roots, Sees final r p dev ino v)
    (hgrows : (samples.flatMap (seenLengths r p)).Pairwise (· ≤ ·)) :
    (offsetOf (samples.foldl (sampleSync parsers) s) r p = none →
      handed r p (samples.foldl (sampleSync parsers) s).log = []) ∧
    (∀ o, offsetOf (samples.foldl (sampleSync parsers) s) r p = some o →
      o.pos ≤ final.length ∧
      handed r p (samples.foldl (sampleSync parsers) s).log = boundedLines (final.take o.pos) ∧
      (o.pos = 0 ∨ final[o.pos - 1]? = some 10 ∨
        o.discarding = true ∧ maxLineBytes < (openLine (final.take o.pos)).length)) ∧
    ∀ e ∈ (samples.foldl (sampleSync parsers) s).log, e.root = r → e.path = p →
      ∃ root now text, root.path = r ∧ utf8 p = some text ∧
        e.ingest = ingestOf parsers root now none text e.line := by
  -- before the first pass nothing was handed out and the offset is where the cursor file has it
  have hfirst : Tracks parsers final r p dev ino 0 (offsetOf s r p) s.log := by
    refine ⟨fun _ => huntouched, ?_, ?_⟩
    · intro o ho
      rw [hstart o ho, huntouched]
      exact ⟨rfl, rfl, Nat.le_refl _, Nat.zero_le _, rfl, fun _ => rfl, (fun hno => nomatch hno)⟩
    · intro e he hroot hpath
      unfold handed at huntouched
      rw [List.map_eq_nil_iff, List.filter_eq_nil_iff] at huntouched
      exact absurd (by simp [hroot, hpath]) (huntouched e he)
  obtain ⟨bound, htracks⟩ := hfirst.run hsees
    (List.pairwise_cons.mpr ⟨fun n _ => Nat.zero_le n, hgrows⟩)
  refine ⟨htracks.untracked, ?_, htracks.ingests⟩
  intro o ho
  obtain ⟨-, -, -, hat⟩ := htracks.tracked o ho
  refine ⟨hat.inside, hat.lines, ?_⟩
  -- the offset stands behind a line feed, at the place it started from, or inside a line too long
  cases hd : o.discarding with
  | true => exact .inr (.inr ⟨rfl, hat.tooLong hd⟩)
  | false =>
    rcases Lines.unfinished_eq_nil (hat.start hd) with hnil | hlast
    · left
      have hlen := congrArg List.length hnil
      rw [List.length_take, List.length_nil] at hlen
      have hinside := hat.inside
      omega
    · right
      left
      rw [List.getLast?_eq_getElem?, List.length_take, Nat.min_eq_left hat.inside,
        List.getElem?_take] at hlast
      split at hlast
      · exact hlast
      · cases hlast

end

/-! ### A file that grows by a line

Two passes over a file whose last line is not complete when the first one sees it. -/

namespace GrowingExample

/-- What the libraries make of an empty object, the only line of the file. -/
def parsers : Parsers where
  line raw := if raw = bytes "\x7b\x7d" then some ⟨none, none, none, none, none⟩ else none
  message _ := none
  payload _ := none
  text _ := none
  integer _ := none
  float _ := none
  rfc3339 _ := none
  localDay t := t.day

def root : Path := bytes "/sessions"

def file : Path := bytes "/sessions/a.jsonl"

/-- Two objects, and the start of another. -/
def content : List UInt8 := bytes "\x7b\x7d\n\x7b\x7d\n\x7b"

/-- A pass that sees the file at a length, and reads it by two bytes. -/
def sample (len : ℕ) : Sample where
  now := .ofNanos 0
  budget := 64
  issues := []
  roots := [⟨⟨root, .claude, 0⟩, true, true, [], 0,
    some [⟨⟨file, len, 1, 2⟩, true, none, content.take len, true,
      [.data 2, .data 2, .data 2, .data 2]⟩]⟩]

/-- Every look at the sample sees a prefix of its file. -/
theorem sees_sample {len : ℕ} (hlen : len ≤ 7) :
    ∀ v ∈ (sample len).roots, Sees content root file 1 2 v := by
  intro v hv
  rw [List.mem_singleton.mp hv]
  intro _ files hfiles
  obtain rfl := Option.some.inj hfiles
  refine ⟨⟨_, List.mem_singleton.mpr rfl, rfl⟩, ?_⟩
  intro v hv _
  rw [List.mem_singleton.mp hv]
  refine ⟨rfl, rfl, List.take_prefix _ _, ?_⟩
  have hcontent : content.length = 7 := by decide
  show len ≤ (content.take len).length
  rw [List.length_take]
  omega

/-- Two passes see the file at four bytes and at seven; both lines were parsed. -/
theorem growing_file :
    handed root file ([sample 4, sample 7].foldl (sampleSync parsers) ⟨.empty, []⟩).log =
        [bytes "\x7b\x7d", bytes "\x7b\x7d"] ∧
      offsetOf ([sample 4, sample 7].foldl (sampleSync parsers) ⟨.empty, []⟩) root file =
        some ⟨6, 1, 2, false⟩ := by
  have hoffset : offsetOf ([sample 4, sample 7].foldl (sampleSync parsers) ⟨.empty, []⟩) root file =
      some ⟨6, 1, 2, false⟩ := by decide +kernel
  have hrun := lines_once parsers ⟨.empty, []⟩ [sample 4, sample 7] root file 1 2 content rfl
    (fun o ho => nomatch ho)
    (by
      intro s hs
      rcases List.mem_cons.mp hs with rfl | hs
      · exact sees_sample (by decide)
      · rw [List.mem_singleton.mp hs]
        exact sees_sample (by decide))
    (by decide +kernel)
  refine ⟨?_, hoffset⟩
  rw [(hrun.2.1 _ hoffset).2.1]
  decide +kernel

end GrowingExample

end Hmux.Usage.Activity
