import Hmux.Lib.Chrono
import Hmux.Lib.Table
import Hmux.Lib.Text
import Hmux.Usage.Model

namespace Hmux.Usage.Activity

open Lib

/-!
# Reading activity from growing files

`hmux-home` reads the JSONL files that the agents append to.  It keeps an offset for every file,
and a pass over the files reads on from there: in chunks, within a budget of bytes that all files
share, and until it is cancelled.  Every complete line is parsed, and the tokens it tells go to
the tracker of its provider.

What the file system and the clock do is input: which files a pass lists with which lengths, what
a read returns, and where the cancellation or the deadline of the pass falls.  What only decides
which directories are listed next (`hot_dirs`, `reconciled`) is left out.
-/

/-! ### Lines

What a line tells: tokens, a model and a session, or nothing. -/

/-- `MAX_LINE_BYTES`. -/
def maxLineBytes : ℕ := 8 <<< 20

/-- `MAX_PATH_BYTES`. -/
def maxPathBytes : ℕ := 2048

/-- `MAX_LABEL_BYTES`. -/
def maxLabelBytes : ℕ := 256

/-- `ActivitySource`. -/
inductive ActivitySource
  | jsonl | hermes
  deriving DecidableEq

/-- `TokenEvent`. -/
structure TokenEvent where
  provider : Provider
  timestamp : Option DateTime
  tokens : ℤ
  model : String
  sessionKey : String
  accountNumber : ℤ
  source : Option ActivitySource
  deriving DecidableEq

/-- `Line`, with the texts of its raw values. -/
structure Line where
  kind : Option String
  timestamp : Option String
  sessionId : Option String
  message : Option String
  payload : Option String

/-- `ClaudeUsage`. -/
structure ClaudeUsage where
  inputTokens : Option String
  outputTokens : Option String
  cacheCreationInputTokens : Option String

/-- `ClaudeMessage`. -/
structure ClaudeMessage where
  model : Option String
  usage : Option ClaudeUsage

/-- `CodexUsage`. -/
structure CodexUsage where
  inputTokens : Option String
  cachedInputTokens : Option String
  outputTokens : Option String

/-- `CodexPayload`; `info` is there when the outer option is, and has the last usage. -/
structure CodexPayload where
  kind : Option String
  info : Option (Option CodexUsage)

/-- What the libraries make of a text: `serde_json` of the types above and of a string,
    `parse::<i64>`, `parse::<f64>` of a finite number as an `i64`, `parse_from_rfc3339`, and the
    day of an instant in the local time zone. -/
structure Parsers where
  line : List UInt8 → Option Line
  message : String → Option ClaudeMessage
  payload : String → Option CodexPayload
  text : String → Option String
  integer : String → Option ℤ
  float : String → Option ℤ
  rfc3339 : String → Option DateTime
  localDay : DateTime → ℤ

/-- What does not fit into an `i64` is its next bound. -/
def saturate (n : ℤ) : ℤ := max (-9223372036854775808) (min n 9223372036854775807)

namespace Parsers

variable (parsers : Parsers)

/-- `bounded_string`. -/
def boundedString (v : Option String) (max : ℕ) : Option String := do
  let raw ← v
  if max * 6 + 2 < (bytes raw).length || raw.toList.head? ≠ some '"' then none
  else
    let value ← parsers.text raw
    if (bytes value).length ≤ max then some value else none

/-- `number`. -/
def number (v : Option String) : ℤ :=
  match v with
  | none => 0
  | some raw =>
    if 128 < (bytes raw).length then 0
    else ((parsers.integer raw).or (parsers.float raw)).getD 0

/-- The tokens, the model and the session of a line of a kind. -/
def usage (provider : Provider) (kind : String) (obj : Line) (path : String) :
    Option (ℤ × String × String) :=
  match provider with
  | .claude =>
    if kind ≠ "assistant" then none
    else do
      let msg ← parsers.message (← obj.message)
      let usage ← msg.usage
      let tokens := saturate (saturate (parsers.number usage.inputTokens +
        parsers.number usage.outputTokens) + parsers.number usage.cacheCreationInputTokens)
      let model := (parsers.boundedString msg.model maxLabelBytes).getD ""
      let session := ((parsers.boundedString obj.sessionId maxLabelBytes).filter (· ≠ "")).getD path
      some (tokens, model, session)
  | .codex =>
    if kind ≠ "event_msg" then none
    else do
      let payload ← parsers.payload (← obj.payload)
      if (← parsers.boundedString payload.kind 32) ≠ "token_count" then none
      else
        let last ← payload.info
        let fresh := max (saturate (parsers.number (last.bind (·.inputTokens)) -
          parsers.number (last.bind (·.cachedInputTokens)))) 0
        some (saturate (fresh + parsers.number (last.bind (·.outputTokens))), "", path)

/-- `parse_line`. -/
def parseLine (provider : Provider) (raw : List UInt8) (path : String) : Option TokenEvent := do
  if maxLineBytes < raw.length || maxPathBytes < (bytes path).length then none
  else
    let obj ← parsers.line raw
    let kind ← parsers.boundedString obj.kind 32
    let (tokens, model, sessionKey) ← parsers.usage provider kind obj path
    if tokens ≤ 0 then none
    else
      let timestamp := (parsers.boundedString obj.timestamp 128).bind parsers.rfc3339
      some ⟨provider, timestamp, tokens, model, sessionKey, 0, none⟩

end Parsers

/-! ### Files

`consume` reads one file from its offset; the offset it leaves is where the next call goes on. -/

/-- The bytes of a path. -/
abbrev Path := List UInt8

/-- `MAX_ROOTS`. -/
def maxRoots : ℕ := 130

/-- `MAX_FILES`. -/
def maxFiles : ℕ := 16384

/-- `MAX_TAIL_BYTES`. -/
def maxTailBytes : ℕ := maxLineBytes + (64 <<< 10)

/-- `Issue`. -/
inductive Issue
  | missing | permission | unsafe_ | limit | io
  deriving DecidableEq

/-- `Diagnostics`. -/
structure Diagnostics where
  observed : Bool
  issue : Option Issue
  incomplete : Bool
  scannedFiles : ℕ
  rejectedFiles : ℕ
  bytesRead : ℕ

/-- `note`. -/
def note (d : Diagnostics) (issue : Issue) : Diagnostics :=
  { d with incomplete := true, issue := d.issue.or (some issue) }

/-- `Offset`. -/
structure Offset where
  pos : ℕ
  dev : ℕ
  ino : ℕ
  discarding : Bool
  deriving DecidableEq

/-- `Root`. -/
structure Root where
  path : Path
  provider : Provider
  account : ℤ

/-- `Candidate`, without its time of modification. -/
structure Candidate where
  path : Path
  len : ℕ
  dev : ℕ
  ino : ℕ

/-- A call of `Tracker::ingest`. -/
structure Ingest where
  event : TokenEvent
  now : DateTime
  nowDay : ℤ
  eventDay : ℤ

/-- A line of a file that was parsed, and what the tracker got of it. -/
structure Entry where
  root : Path
  path : Path
  line : List UInt8
  ingest : Option Ingest

/-- What `consume` is told of a file (`Consume`). -/
structure Consume where
  root : Root
  candidate : Candidate
  now : DateTime
  skipFirst : Bool
  since : Option ℤ

/-- What a line gives the tracker. -/
def ingestOf (parsers : Parsers) (root : Root) (now : DateTime) (since : Option ℤ) (path : String)
    (line : List UInt8) : Option Ingest := do
  let event ← parsers.parseLine root.provider line path
  let eventDay := (event.timestamp.map parsers.localDay).getD (parsers.localDay now)
  if since.all fun day => event.timestamp.isSome && day ≤ eventDay then
    some ⟨{ event with accountNumber := root.account, source := some .jsonl }, now,
      parsers.localDay now, eventDay⟩
  else none

/-- What `consume` has of a file while it reads. -/
structure Scan where
  line : List UInt8
  position : ℕ
  complete : ℕ
  discarding : Bool
  skip : Bool
  log : List Entry

/-- One byte, in the inner loop of `consume`. -/
def scanByte (parsers : Parsers) (args : Consume) (path : String) (s : Scan)
    (byte : UInt8) : Scan :=
  let s := { s with position := s.position + 1 }
  if s.skip then
    if byte = 10 then { s with skip := false, complete := s.position } else s
  else if s.discarding then
    if byte = 10 then { s with discarding := false, complete := s.position }
    else { s with complete := s.position }
  else if byte = 10 then
    { s with
      log := s.log ++ [⟨args.root.path, args.candidate.path, s.line,
        ingestOf parsers args.root args.now args.since path s.line⟩]
      line := []
      complete := s.position }
  else if s.line.length < maxLineBytes then { s with line := s.line ++ [byte] }
  else { s with line := [], discarding := true, complete := s.position }

/-- What one turn of the outer loop of `consume` meets: the pass is cancelled or out of time, a
    read returns so many bytes at most, or it fails. -/
inductive Read
  | cancelled
  | data (n : ℕ)
  | failed

/-- What a call of `consume` leaves. -/
structure Consumed where
  offset : Offset
  log : List Entry
  budget : ℕ
  diagnostics : Diagnostics

/-- The end of `consume`. -/
def finish (args : Consume) (s : Scan) (c : Consumed) : Except Unit Bool × Consumed :=
  (.ok (s.position = args.candidate.len && !s.skip),
    { c with
      offset := { c.offset with pos := s.complete, discarding := s.discarding }
      log := s.log
      diagnostics :=
        if s.position < args.candidate.len then note c.diagnostics .limit else c.diagnostics })

/-- How much one read of a file may return. -/
def allowed (args : Consume) (readTotal position budget : ℕ) : ℕ :=
  min (min (min 65536 (args.candidate.len - position)) (maxTailBytes - readTotal)) budget

/-- The outer loop of `consume`, over what its turns meet; a list that ends is a pass that is
    cancelled there.  `content` is the file. -/
def readLoop (parsers : Parsers) (args : Consume) (path : String) (content : List UInt8) :
    List Read → ℕ → Scan → Consumed → Except Unit Bool × Consumed
  | reads, readTotal, s, c =>
    if s.position < args.candidate.len && readTotal < maxTailBytes && 0 < c.budget then
      match reads with
      | [] => (.error (), c)
      | .cancelled :: _ => (.error (), c)
      | .failed :: _ => finish args s { c with diagnostics := note c.diagnostics .io }
      | .data n :: reads =>
        let chunk := (content.drop s.position).take
          (min n (allowed args readTotal s.position c.budget))
        if chunk = [] then finish args s c
        else
          let s := chunk.foldl (scanByte parsers args path) s
          readLoop parsers args path content reads (readTotal + chunk.length) s
            { c with
              offset := { c.offset with pos := s.complete, discarding := s.discarding }
              log := s.log
              budget := c.budget - chunk.length
              diagnostics :=
                { c.diagnostics with bytesRead := c.diagnostics.bytesRead + chunk.length } }
    else finish args s c

/-- `consume`; `seeks` tells whether the file can be positioned. -/
def consume (parsers : Parsers) (args : Consume) (content : List UInt8) (seeks : Bool)
    (reads : List Read) (c : Consumed) : Except Unit Bool × Consumed :=
  if !seeks then (.ok false, { c with diagnostics := note c.diagnostics .io })
  else
    match utf8 args.candidate.path with
    | none => (.ok false, { c with diagnostics := note c.diagnostics .unsafe_ })
    | some path =>
      readLoop parsers args path content reads 0
        ⟨[], c.offset.pos, c.offset.pos, c.offset.discarding, args.skipFirst, c.log⟩ c

/-! ### Passes

A pass lists the roots, picks the files to read and gives each of them what is left of the budget.
-/

/-- A file as a pass meets it: whether the pass goes on before it, the issue that keeps it from
    being opened, its bytes when it is read, and what the reads meet. -/
structure Visit where
  candidate : Candidate
  checked : Bool
  refused : Option Issue
  content : List UInt8
  seeks : Bool
  reads : List Read

/-- What a pass has while it walks over the files of a root. -/
structure Walk where
  offsets : Table Path Offset
  seen : List Path
  tracked : ℕ
  log : List Entry
  budget : ℕ
  diagnostics : Diagnostics

/-- How the walk goes on after a file. -/
inductive Turn
  | next | stop | cancelled
  deriving DecidableEq

/-- The offset at which a file is read on: a new file, another file of its name and one that has
    become shorter are read from their start. -/
def startOffset (offsets : Table Path Offset) (c : Candidate) : Offset :=
  let start : Offset := ⟨0, c.dev, c.ino, false⟩
  let offset := (offsets.get? c.path).getD start
  if offset.dev ≠ c.dev || offset.ino ≠ c.ino || c.len < offset.pos then start else offset

/-- The walk goes to a file that is tracked, from its offset. -/
def readFile (parsers : Parsers) (root : Root) (now : DateTime) (w : Walk) (v : Visit) :
    Turn × Walk :=
  let offset := startOffset w.offsets v.candidate
  let w := { w with
    seen := w.seen ++ [v.candidate.path]
    offsets := w.offsets.insert v.candidate.path offset }
  if v.candidate.len ≤ offset.pos then (.next, w)
  else
    match v.refused with
    | some issue => (.next, { w with diagnostics := note w.diagnostics issue })
    | none =>
      let (result, c) := consume parsers ⟨root, v.candidate, now, false, none⟩ v.content v.seeks
        v.reads ⟨offset, w.log, w.budget, w.diagnostics⟩
      let w := { w with
        offsets := w.offsets.insert v.candidate.path c.offset
        log := c.log
        budget := c.budget
        diagnostics := c.diagnostics }
      match result with
      | .error _ => (.cancelled, w)
      | .ok _ => (.next, w)

/-- One turn of the loop over the files of a root. -/
def visitFile (parsers : Parsers) (root : Root) (now : DateTime) (w : Walk) (v : Visit) :
    Turn × Walk :=
  if !v.checked then (.cancelled, w)
  else if !w.offsets.contains v.candidate.path then
    if maxFiles ≤ w.tracked then (.stop, { w with diagnostics := note w.diagnostics .limit })
    else readFile parsers root now { w with tracked := w.tracked + 1 } v
  else readFile parsers root now w v

/-- The loop over the files of a root, and whether the pass was cancelled in it. -/
def visitFiles (parsers : Parsers) (root : Root) (now : DateTime) : List Visit → Walk → Bool × Walk
  | [], w => (false, w)
  | v :: rest, w =>
    match visitFile parsers root now w v with
    | (.next, w) => visitFiles parsers root now rest w
    | (.stop, w) => (false, w)
    | (.cancelled, w) => (true, w)

/-- A root as a pass meets it: whether the pass goes on before it, whether all of its directories
    are listed, the issues and the rejected files of `list`, and the files it found unless it was
    cancelled. -/
structure RootVisit where
  root : Root
  checked : Bool
  full : Bool
  issues : List Issue
  rejected : ℕ
  files : Option (List Visit)

/-- The offsets of the roots, and the lines that were parsed. -/
structure State where
  roots : Table Path (Table Path Offset)
  log : List Entry

/-- What a pass has while it walks over the roots. -/
structure Pass where
  state : State
  budget : ℕ
  claude : Diagnostics
  codex : Diagnostics

/-- The diagnostics of a provider. -/
def Pass.diagnostics (p : Pass) : Provider → Diagnostics
  | .claude => p.claude
  | .codex => p.codex

/-- The diagnostics of a provider change. -/
def Pass.withDiagnostics (p : Pass) (provider : Provider) (d : Diagnostics) : Pass :=
  match provider with
  | .claude => { p with claude := d }
  | .codex => { p with codex := d }

/-- `list`, of a root: its files or nothing, and what it notes. -/
def listed (v : RootVisit) (d : Diagnostics) : Diagnostics :=
  let d := v.issues.foldl note d
  { d with rejectedFiles := d.rejectedFiles + v.rejected }

/-- One turn of the loop over the roots, once the files are baselined; whether the pass was
    cancelled in it. -/
def visitRoot (parsers : Parsers) (now : DateTime) (p : Pass) (v : RootVisit) : Bool × Pass :=
  if !v.checked then (true, p)
  else if !p.state.roots.contains v.root.path && maxRoots ≤ p.state.roots.entries.length then
    (false, p.withDiagnostics v.root.provider (note (p.diagnostics v.root.provider) .limit))
  else
    let tracked := (p.state.roots.values.map (·.entries.length)).sum
    let offsets := (p.state.roots.get? v.root.path).getD .empty
    let d := listed v (p.diagnostics v.root.provider)
    match v.files with
    | none =>
      (true, { p.withDiagnostics v.root.provider d with
        state := { p.state with roots := p.state.roots.insert v.root.path offsets } })
    | some files =>
      let d := { d with scannedFiles := d.scannedFiles + files.length }
      let (cancelled, w) := visitFiles parsers v.root now files
        ⟨offsets, [], tracked, p.state.log, p.budget, d⟩
      let offsets :=
        if !cancelled && v.full && !w.diagnostics.incomplete then
          w.offsets.retain fun path _ => w.seen.contains path
        else w.offsets
      (cancelled, { p.withDiagnostics v.root.provider w.diagnostics with
        state := ⟨p.state.roots.insert v.root.path offsets, w.log⟩
        budget := w.budget })

/-- The loop over the roots. -/
def visitRoots (parsers : Parsers) (now : DateTime) : List RootVisit → Pass → Pass
  | [], p => p
  | v :: rest, p =>
    match visitRoot parsers now p v with
    | (true, p) => p
    | (false, p) => visitRoots parsers now rest p

/-- A pass: its instant, the bytes it may read (`MAX_LIVE_BYTES`), what `discover` noted, and the
    roots. -/
structure Sample where
  now : DateTime
  budget : ℕ
  issues : List Issue
  roots : List RootVisit

/-- `sample_sync`, once the files are baselined. -/
def sampleSync (parsers : Parsers) (s : State) (sample : Sample) : State :=
  let d : Diagnostics := ⟨true, none, false, 0, 0, 0⟩
  (visitRoots parsers sample.now sample.roots
    ⟨s, sample.budget, sample.issues.foldl note d, d⟩).state

end Hmux.Usage.Activity
