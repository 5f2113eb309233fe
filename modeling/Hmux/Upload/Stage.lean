import Hmux.Lib.Json.Pretty
import Hmux.Upload.Contract

namespace Hmux.Upload

open Hmux.Lib Hmux.Protocol

/-!
# Uploads at Home

Home checks the header once more, writes the chunks into the files of a private directory and, at
the end, leaves a manifest and renames the directory (`Stage`).  What the file system and the clock
do during a call is a parameter (`Io`).

* `validateHeader`, `Stage.write`, `Stage.commitTyped` — under the names of the source;
* `Root` — a spool directory whose path passed the checks of `Store::open`.
-/

namespace Home

def fileMax : Int64 := 33554432
def requestMax : Int64 := 134217728
def chunkMax : ℕ := 262144
def webTtl : Int64 := 10800

inductive Error
  | root
  | header
  | lock
  | quota
  | unsafeEntry
  | size
  | state
  | io
  | time
  | cancelled
  deriving DecidableEq, Repr

/-- `valid_hex`. -/
def validHex (value : String) (n : ℕ) : Bool := lowerHex n value

/-- One round of the loop of `validate_header`, with the sum of the sizes so far. -/
def validateFile (total : Int64) (p : Pb.FileHeader × ℕ) : Except Error Int64 :=
  if p.1.index.toNat ≠ p.2 ∨ ¬(1 ≤ p.1.size ∧ p.1.size ≤ fileMax) ∨ 16 < len p.1.extension ∨
      (p.1.extension ≠ "" ∧
        ¬(bytes p.1.extension).all fun b => isAsciiLowercase b || isAsciiDigit b) then
    .error .header
  else okOr (checkedAdd total p.1.size) .header

/-- `validate_header`. -/
def validateHeader (h : Pb.UploadHeader) : Except Error Unit := do
  require (h.protocolVersion = 1 && validHex h.requestId 32 && h.fileCount ≠ 0 &&
    h.fileCount ≤ 16 && h.fileCount.toNat = h.files.length && 1 ≤ h.totalBytes &&
    h.totalBytes ≤ requestMax) .header
  let session ← okOr h.session .header
  require (1 ≤ session.createdAt && dollarDigits 31 session.id) .header
  let total ← h.files.zipIdx.foldlM validateFile 0
  require (total = h.totalBytes) .header

/-- `file_name`. -/
def fileName (h : Pb.UploadHeader) (index : ℕ) : String :=
  let ext := ((h.files[index]?).map (·.extension)).getD ""
  if ext = "" then "file-" ++ String.ofList (pad4 (index + 1))
  else "file-" ++ String.ofList (pad4 (index + 1)) ++ "." ++ ext

/-- The name of a committed stage. -/
def finalNameOf (expiry : Int64) (stageId : String) : String :=
  toString expiry.toInt ++ "-" ++ stageId

/-! ### The spool directory

Only the checks of the path itself matter here, since the paths of the staged files start with it.
-/

/-- The checks `checked_root` makes of the path itself: it is absolute and in normal form, it
    has no control characters, and it ends in `hmux/staged-files-v1`. -/
def checkedRoot (path : String) : Bool :=
  let parts := (bytes path).splitOn 47
  (bytes path).head? == some 47 && !(parts.tail.any badPart) &&
    parts.reverse[0]? == some (bytes "staged-files-v1") &&
    parts.reverse[1]? == some (bytes "hmux") && !((bytes path).any isControl)

/-- A spool directory that was opened. -/
structure Root where
  path : String
  checked : checkedRoot path = true

/-! ### Stages

Each call may be refused or fail at its own operations, and a stage that has failed stays failed.
-/

/-- What happens to a call from outside: the answer of `check_work` when so many bytes are
    written, and whether the calls of the file system succeed.  A failed `write_all` may have
    written some of its bytes. -/
structure Io where
  work : ℕ → Option Error
  create : String → Bool
  append : String → ℕ → Option ℕ
  sync : String → Bool
  rename : Bool

/-- Nothing interferes. -/
def Io.fine : Io where
  work _ := none
  create _ := true
  append _ _ := none
  sync _ := true
  rename := true

/-- `CurrentFile`: its name, the bytes its hasher was fed and its size. -/
structure CurrentFile where
  file : String
  hash : List UInt8
  written : ℕ
  deriving DecidableEq, Repr

/-- `Stage`, with the files in its directory. -/
structure Stage where
  dir : List (String × List UInt8)
  name : String
  finalName : Option String
  header : Pb.UploadHeader
  stageId : String
  startedUnix : Int64
  current : Option CurrentFile
  hashes : List String
  totalWritten : ℕ
  failed : Bool

/-- The id `Store::begin` makes from random bytes. -/
def newStageId (entropy : Vector UInt8 16) : String :=
  String.ofList (hexOf entropy.toList)

/-- The stage `Store::begin` returns when the header is valid and there is room. -/
def Stage.begin (h : Pb.UploadHeader) (entropy : Vector UInt8 16) (startedUnix : Int64) : Stage :=
  { dir := [], name := ".incoming-" ++ newStageId entropy, finalName := none, header := h
    stageId := newStageId entropy, startedUnix, current := none, hashes := [], totalWritten := 0
    failed := false }

/-- A file gets more bytes. -/
def appendTo (dir : List (String × List UInt8)) (file : String) (data : List UInt8) :
    List (String × List UInt8) :=
  dir.map fun e => if e.1 = file then (e.1, e.2 ++ data) else e

section

variable (sha256 : List UInt8 → Vector UInt8 32) (io : Io)

namespace Stage

/-- `Stage::check`. -/
def check (s : Stage) : Except Error Unit :=
  if s.failed ∨ s.finalName.isSome then .error .state
  else (io.work s.totalWritten).elim (.ok ()) .error

/-- The file that is open, or the next one, which is created. -/
def openCurrent (s : Stage) : Except Error (CurrentFile × Stage) :=
  match s.current with
  | some current => .ok (current, s)
  | none =>
    let file := fileName s.header s.hashes.length
    -- `O_EXCL`: the file must not be there.
    if !io.create file ∨ file ∈ s.dir.map Prod.fst then .error .io
    else
      let current : CurrentFile := { file, hash := [], written := 0 }
      .ok (current, { s with dir := s.dir ++ [(file, [])], current := some current })

/-- A round of the loop of `Stage::write_inner`; the rest of the data. -/
def writeRound (s : Stage) (data : List UInt8) : Except Error (List UInt8) × Stage :=
  match s.check io with
  | .error e => (.error e, s)
  | .ok () =>
    match s.header.files[s.hashes.length]? with
    | none => (.error .size, s)
    | some f =>
      let expected := fileSize f
      match s.openCurrent io with
      | .error e => (.error e, s)
      | .ok (current, s) =>
        if expected < current.written then (.error .size, s)
        else
          let amount := min (expected - current.written) data.length
          match io.append current.file current.written with
          | some n => (.error .io, { s with dir := appendTo s.dir current.file (data.take n) })
          | none =>
            let now : CurrentFile :=
              { current with
                hash := current.hash ++ data.take amount
                written := current.written + amount }
            let s :=
              { s with
                dir := appendTo s.dir current.file (data.take amount)
                current := some now
                totalWritten := s.totalWritten + amount }
            if now.written = expected then
              if !io.sync current.file then (.error .io, { s with current := none })
              else
                (.ok (data.drop amount),
                  { s with current := none, hashes := s.hashes ++ [hexDigest (sha256 now.hash)] })
            else (.ok (data.drop amount), s)

/-- `Stage::write_inner`, at most `rounds` rounds of its loop; `none` if it goes on after that. -/
def writeInner : ℕ → Stage → List UInt8 → Option (Except Error ℕ × Stage)
  | _, s, [] => some (.ok s.totalWritten, s)
  | 0, _, _ :: _ => none
  | rounds + 1, s, b :: rest =>
    match s.writeRound sha256 io (b :: rest) with
    | (.error e, s) => some (.error e, s)
    | (.ok rest, s) => writeInner rounds s rest

/-- `Stage::write`. -/
def write (s : Stage) (data : List UInt8) : Option (Except Error ℕ × Stage) :=
  match s.check io with
  | .error e => some (.error e, s)
  | .ok () =>
    if chunkMax < data.length ∨ s.header.totalBytes.toInt.toNat < s.totalWritten + data.length then
      some (.error .size, { s with failed := true })
    else
      (s.writeInner sha256 io data.length data).map fun
        | (.error e, s) => (.error e, { s with failed := true })
        | (.ok n, s) => (.ok n, s)

/-- The answer to an upload, as it stands in the manifest. -/
def manifest (s : Stage) (session : Pb.Session) (expiry : Int64) (paths : List String) : Json :=
  .obj
    [("protocol_version", .int 1), ("request_id", .str s.header.requestId),
      ("stage_id", .str s.stageId),
      ("session", .obj [("id", .str session.id), ("created_at", .int session.createdAt.toInt)]),
      ("expires_at_unix", .int expiry.toInt),
      ("files", .arr (((paths.zip (s.header.files.zip s.hashes)).zipIdx).map fun p =>
        .obj
          [("index", .int p.2), ("path", .str p.1.1), ("size", .int p.1.2.1.size.toInt),
            ("sha256", .str p.1.2.2)]))]

/-- The answer to an upload. -/
def result (s : Stage) (session : Pb.Session) (expiry : Int64) (paths : List String) :
    Pb.StageResult :=
  { protocolVersion := 1, requestId := s.header.requestId, stageId := s.stageId
    session := some session, expiresAtUnix := expiry
    files := ((paths.zip (s.header.files.zip s.hashes)).zipIdx).map fun p =>
      { index := UInt32.ofNat p.2, path := p.1.1, size := p.1.2.1.size, sha256 := p.1.2.2 } }

/-- Where file `index` of a committed stage is. -/
def finalPath (root : Root) (h : Pb.UploadHeader) (finalName : String) (index : ℕ) : String :=
  root.path ++ "/" ++ finalName ++ "/" ++ fileName h index

/-- Give up with an error, for good. -/
def fail {α : Type} (s : Stage) (e : Error) : Except Error α × Stage :=
  (.error e, { s with failed := true })

/-- The calls of `commit_typed` that make the stage durable. -/
def publish (s : Stage) (finalName : String) (manifest : List UInt8) (result : Pb.StageResult) :
    Except Error Pb.StageResult × Stage :=
  if !io.create "manifest.json" ∨ "manifest.json" ∈ s.dir.map Prod.fst then (.error .io, s)
  else
    let s := { s with dir := s.dir ++ [("manifest.json", [])] }
    match io.append "manifest.json" 0 with
    | some n => (.error .io, { s with dir := appendTo s.dir "manifest.json" (manifest.take n) })
    | none =>
      let s := { s with dir := appendTo s.dir "manifest.json" manifest }
      if !io.sync "manifest.json" ∨ !io.sync s.name then (.error .io, s)
      else
        match io.work s.totalWritten with
        | some e => (.error e, s)
        | none =>
          if !io.rename then (.error .io, s)
          else
            let s := { s with finalName := some finalName }
            if !io.sync finalName then (.error .io, s) else (.ok result, s)

/-- `Stage::commit_typed`. -/
def commitTyped (format : UInt64 → List UInt8) (root : Root) (s : Stage) (completedUnix : Int64) :
    Except Error Pb.StageResult × Stage :=
  match s.check io with
  | .error e => (.error e, s)
  | .ok () =>
    if s.totalWritten ≠ s.header.totalBytes.toInt.toNat ∨ s.current.isSome ∨
        s.hashes.length ≠ s.header.files.length then
      s.fail .size
    else if completedUnix < s.startedUnix then s.fail .time
    else
      match checkedAdd completedUnix webTtl with
      | none => (.error .time, s)
      | some expiry =>
        if ¬(1000000000 ≤ expiry ∧ expiry ≤ 9999999999) then s.fail .time
        else
          let name := finalNameOf expiry s.stageId
          match s.header.session with
          | none => (.error .header, s)
          | some session =>
            let paths := (List.range s.hashes.length).map (finalPath root s.header name)
            if paths.any fun path => 4096 < len path || (bytes path).any isControl then
              s.fail .root
            else
              let value := s.manifest session expiry paths
              if 65536 < 1 + (value.text format).length then (.error .size, s)
              else
                let manifest := value.pretty format 0 ++ [10]
                if 65536 < manifest.length then s.fail .size
                else s.publish io name manifest (s.result session expiry paths)

end Stage

end

end Home

end Hmux.Upload
