import Hmux.Lib.Json.Codec
import Hmux.Lib.Machine
import Hmux.Protocol.Validate

namespace Hmux.Upload

open Hmux.Lib Hmux.Protocol

/-!
# Uploads at the Gateway

What the Gateway does with an upload: it reads the browser's first frame, makes the header for Home
from it (`decodeStart`), hashes the chunks while it forwards them (`UploadHashes`), and checks
Home's answer against what it hashed (`validateCompletion`).  It never stores the bytes.

Sizes are positive after `validHeader`, so counters are natural numbers.  A hasher is the bytes
it was fed.
-/

def maxStart : ℕ := 16 * 1024
def maxFiles : ℕ := 16
def maxFileBytes : Int64 := 33554432
def maxTotalBytes : Int64 := 134217728
def maxChunk : ℕ := 262144

inductive ContractError
  | size
  | invalid
  | incomplete
  deriving DecidableEq, Repr

/-! ### The first frame

The reader takes only what it knows and bounds what it reads; the header it makes passes the
Gateway's own check. -/

structure RawSession where
  id : Option String
  createdAt : Option Int64
  deriving DecidableEq

structure RawFile where
  size : Option Int64
  «extension» : Option String
  deriving DecidableEq

structure RawStart where
  kind : Option String
  csrf : Option String
  session : Option RawSession
  files : Option (List RawFile)
  deriving DecidableEq

/-- A field that may be missing or null. -/
def field {α : Type} (key : String) (c : Codec α) : Fields (Option α) :=
  Fields.defaulted key c.option none

/-- `Files`: a list of at most sixteen items. -/
def filesCodec {α : Type} (c : Codec α) : Codec (List α) where
  write := c.list.write
  read
    | .arr items => if items.length ≤ maxFiles then items.mapM c.read else none
    | _ => none

def RawSession.codec : Codec RawSession :=
  Codec.strictObject
    (((field "id" .string).and (field "created_at" .int64)).map
      (fun (i, c) => ⟨i, c⟩) (fun s => (s.id, s.createdAt)))

def RawFile.codec : Codec RawFile :=
  Codec.strictObject
    (((field "size" .int64).and (field "extension" .string)).map
      (fun (s, e) => ⟨s, e⟩) (fun f => (f.size, f.extension)))

def RawStart.codec : Codec RawStart :=
  Codec.strictObject
    (((field "type" .string).and <| (field "csrf" .string).and <|
      (field "session" RawSession.codec).and <| field "files" (filesCodec RawFile.codec)).map
      (fun (k, c, s, f) => ⟨k, c, s, f⟩) (fun s => (s.kind, s.csrf, s.session, s.files)))

/-- `parse_bounded`. -/
def parseBounded {α : Type} (S : Serde) (c : Codec α) (raw : List UInt8) (limit : ℕ) :
    Except ContractError α :=
  if raw = [] ∨ limit < raw.length then .error .size
  else okOr ((S.fromSlice raw).bind c.read) .invalid

/-- A dollar sign and between one and `most` digits. -/
def dollarDigits (most : ℕ) (id : String) : Bool :=
  (bytes id).head? == some 36 && 1 ≤ (bytes id).tail.length && (bytes id).tail.length ≤ most &&
    (bytes id).tail.all isAsciiDigit

/-- `valid_session`. -/
def validSession (s : Pb.Session) : Bool := 0 < s.createdAt && dollarDigits 31 s.id

/-- `n` lower-case hexadecimal digits. -/
def lowerHex (n : ℕ) (text : String) : Bool :=
  len text = n && (bytes text).all isLowerHex

/-- `valid_id`. -/
def validId (id : String) : Bool := lowerHex 32 id

/-- The sum of the sizes of the files, if it does not overflow. -/
def sumSizes (files : List Pb.FileHeader) : Option Int64 :=
  files.foldlM (fun sum f => checkedAdd sum f.size) 0

/-- The checks of one file in `valid_header`. -/
def validFile (index : ℕ) (f : Pb.FileHeader) : Bool :=
  f.index.toNat = index && 1 ≤ f.size && f.size ≤ maxFileBytes && len f.extension ≤ 16 &&
    (bytes f.extension).all fun b => isAsciiLowercase b || isAsciiDigit b

/-- `valid_header`. -/
def validHeader (h : Pb.UploadHeader) (requireRequestId : Bool) : Bool :=
  h.protocolVersion == 1 &&
    (if requireRequestId then validId h.requestId else h.requestId == "" || validId h.requestId) &&
    h.session.any validSession && 1 ≤ h.fileCount && h.fileCount ≤ 16 &&
    h.fileCount.toNat = h.files.length && 1 ≤ h.totalBytes && h.totalBytes ≤ maxTotalBytes &&
    (h.files.zipIdx.all fun p => validFile p.2 p.1) && sumSizes h.files = some h.totalBytes

/-- `decode_start`. -/
def decodeStart (S : Serde) (raw : List UInt8) (expectedCsrf : String) :
    Except ContractError Pb.UploadHeader := do
  let start ← parseBounded S RawStart.codec raw maxStart
  require (expectedCsrf ≠ "" && start.kind = some "start" && start.csrf.getD "" = expectedCsrf)
    .invalid
  let session ← okOr start.session .invalid
  -- Browser admission is narrower than the Home wire header.
  require (session.id.any (dollarDigits 12)) .invalid
  let raws ← okOr start.files .invalid
  let files := raws.zipIdx.map fun p =>
    ({ index := UInt32.ofNat p.2, size := p.1.size.getD 0, «extension» := p.1.extension.getD "" } :
      Pb.FileHeader)
  let totalBytes ← okOr (sumSizes files) .invalid
  let header : Pb.UploadHeader :=
    { protocolVersion := 1, requestId := ""
      session := some { id := session.id.getD "", createdAt := session.createdAt.getD 0 }
      fileCount := UInt32.ofNat files.length, totalBytes, files }
  require (validHeader header false) .invalid
  .ok header

/-! ### Hashing while forwarding

A chunk may end anywhere, also several files further on. -/

/-- The size of a file, which is positive in a valid header. -/
def fileSize (f : Pb.FileHeader) : ℕ := f.size.toInt.toNat

/-- `UploadHashes`. -/
structure UploadHashes where
  hashers : List (List UInt8)
  sizes : List ℕ
  fileIndex : ℕ
  remaining : ℕ
  received : ℕ
  total : ℕ
  deriving DecidableEq, Repr

namespace UploadHashes

/-- `UploadHashes::new`. -/
def new (h : Pb.UploadHeader) : Except ContractError UploadHashes :=
  if !validHeader h false then .error .invalid
  else
    let sizes := h.files.map fileSize
    .ok
      { hashers := sizes.map fun _ => [], remaining := sizes.head?.getD 0, sizes
        fileIndex := 0, received := 0, total := h.totalBytes.toInt.toNat }

/-- The body of the loop of `UploadHashes::consume`: bytes for the current file, and on to the
    next file when it is full. -/
def feed (u : UploadHashes) (front : List UInt8) : UploadHashes :=
  let u :=
    { u with
      hashers := u.hashers.modify u.fileIndex (· ++ front)
      remaining := u.remaining - front.length }
  if u.remaining = 0 ∧ u.fileIndex + 1 < u.sizes.length then
    { u with fileIndex := u.fileIndex + 1, remaining := u.sizes.getD (u.fileIndex + 1) 0 }
  else u

/-- The loop, at most `rounds` times; `none` if it goes on after that or an index is out of
    bounds. -/
def consumeLoop : ℕ → UploadHashes → List UInt8 → Option UploadHashes
  | _, u, [] => some u
  | 0, _, _ :: _ => none
  | rounds + 1, u, b :: rest =>
    let data := b :: rest
    let take := min data.length u.remaining
    if u.fileIndex < u.hashers.length then
      consumeLoop rounds (u.feed (data.take take)) (data.drop take)
    else none

/-- `UploadHashes::consume`.  A loop that has not ended after one round for each byte took nothing
    in one of them and never ends. -/
def consume (u : UploadHashes) (data : List UInt8) :
    Option (Except ContractError ℕ × UploadHashes) :=
  if data = [] ∨ maxChunk < data.length ∨ u.total - u.received < data.length then
    some (.error .size, u)
  else
    let u := { u with received := u.received + data.length }
    (consumeLoop data.length u data).map fun u => (.ok u.received, u)

/-- `UploadHashes::is_complete`. -/
def isComplete (u : UploadHashes) : Bool := u.received == u.total

end UploadHashes

/-- `{:x}` of a digest. -/
def hexDigest (digest : Vector UInt8 32) : String :=
  String.ofList (hexOf digest.toList)

/-- `UploadHashes::finish`. -/
def UploadHashes.finish (sha256 : List UInt8 → Vector UInt8 32) (u : UploadHashes) :
    Except ContractError (List String) :=
  if !u.isComplete then .error .incomplete
  else .ok (u.hashers.map fun fed => hexDigest (sha256 fed))

/-! ### Home's answer

Every field of the answer is compared with what the Gateway has seen itself. -/

/-- `format!("{:04}", n)`. -/
def pad4 (n : ℕ) : List Char :=
  List.replicate (4 - (Nat.toDigits 10 n).length) '0' ++ Nat.toDigits 10 n

/-- A byte that no path may hold. -/
def isControl (b : UInt8) : Bool := b == 0 || b == 13 || b == 10 || b == 9 || b == 27

/-- The part of a path is empty, `.` or `..`. -/
def badPart (part : List UInt8) : Bool := part == [] || part == [46] || part == [46, 46]

/-- `valid_path`. -/
def validPath (path stageDir : String) (index : ℕ) («extension» : String) : Bool :=
  if path = "" ∨ 4096 < len path ∨ (bytes path).head? ≠ some 47 ∨ (bytes path).any isControl then
    false
  else if ((bytes path).tail.splitOn 47).any badPart then false
  else
    let suffix := ((bytes path).splitOn 47).reverse
    let name := "file-" ++ String.ofList (pad4 (index + 1)) ++
      (if «extension» = "" then "" else "." ++ «extension»)
    suffix[0]? == some (bytes name) && suffix[1]? == some (bytes stageDir) &&
      suffix[2]? == some (bytes "staged-files-v1")

structure StageSession where
  id : String
  createdAt : Int64
  deriving DecidableEq

structure StageFile where
  index : ℕ
  path : String
  size : Int64
  sha256 : String
  deriving DecidableEq

structure StageResponse where
  protocolVersion : Int64
  requestId : String
  stageId : String
  session : StageSession
  expiresAtUnix : Int64
  files : List StageFile
  deriving DecidableEq

/-- The checks of one file of `validate_completion`. -/
def completedFile (stageDir : String) (index : ℕ) (file : Pb.StageFile) (metadata : Pb.FileHeader)
    (hash : String) : Except ContractError StageFile :=
  if file.index.toNat ≠ index ∨ file.size ≠ metadata.size ∨ file.sha256 ≠ hash ∨
      !lowerHex 64 file.sha256 ∨ !validPath file.path stageDir index metadata.extension then
    .error .invalid
  else .ok { index, path := file.path, size := metadata.size, sha256 := file.sha256 }

/-- `validate_completion`. -/
def validateCompletion (response : Pb.StageResult) (header : Pb.UploadHeader)
    (hashes : List String) : Except ContractError StageResponse := do
  require (validHeader header true && hashes.length = header.files.length) .invalid
  let session ← okOr response.session .invalid
  let expected ← okOr header.session .invalid
  require (response.protocolVersion = 1 && response.requestId = header.requestId &&
    session.id = expected.id && session.createdAt = expected.createdAt &&
    validId response.stageId && 1 ≤ response.expiresAtUnix) .invalid
  require (response.files.length = header.files.length) .invalid
  let stageDir := toString response.expiresAtUnix.toInt ++ "-" ++ response.stageId
  let files ← ((response.files.zip (header.files.zip hashes)).zipIdx).mapM fun p =>
    completedFile stageDir p.2 p.1.1 p.1.2.1 p.1.2.2
  .ok
    { protocolVersion := 1, requestId := response.requestId, stageId := response.stageId
      session := { id := session.id, createdAt := session.createdAt }
      expiresAtUnix := response.expiresAtUnix, files }

end Hmux.Upload
