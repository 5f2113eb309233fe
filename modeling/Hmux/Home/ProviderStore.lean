import Hmux.Home.Dotenv
import Hmux.Lib.AtomicFile
import Hmux.Lib.Json.Paths
import Hmux.Lib.Json.Pretty

namespace Hmux.Home

/-!
# Provider credentials in the user's own files

`providers_store`: keys and account types are written into files that belong to other programs.
`Place` is one of these files with its directory; `ReadCalls` and `SaveCalls` are how the system
calls of one read and of one write end.  How JSON is read is a parameter (`Serde`).

* `readExisting`, `save` — reading a file and replacing it;
* `claudeSettings`, `geminiSettings`, `claudeState` — what is edited in a JSON object;
* `setClaudeKey`, `setGeminiAuth`, `markClaudeReady`, `setDotenv` — the edits of a file;
* `claudeKey`, `geminiSelectedAuth`, `dotenvValue` — the readers.
-/

open Lib Lib.Json

/-- `ProviderError`. -/
structure ProviderError where
  message : String
  deriving DecidableEq

/-! ### Files

A file is only read when it is a regular one of this user with one link, and it is replaced
atomically; a directory that is missing is created by a write and by nothing else. -/

/-- A directory entry: its content, and whether it is a regular file of this user with one link that
    nobody else may write. -/
structure Entry where
  content : List UInt8
  ordinary : Bool

/-- A file and its directory, which `PrivateDir::open` may find missing or refuse. -/
inductive Place
  | missing
  | refused (entry : Option Entry)
  | trusted (entry : Option Entry)

namespace Place

def entry : Place → Option Entry
  | missing => none
  | refused entry => entry
  | trusted entry => entry

/-- The content of the file. -/
def content (p : Place) : Option (List UInt8) := p.entry.map Entry.content

/-- `open_or_create_trusted` where it succeeds. -/
def created : Place → Place
  | missing => trusted none
  | refused entry => refused entry
  | trusted entry => trusted entry

/-- The entry was replaced. -/
def put (p : Place) (entry : Option Entry) : Place :=
  match p with
  | missing => missing
  | refused _ => refused entry
  | trusted _ => trusted entry

end Place

/-- The calls of `read_existing`, and whether the opened file is the one that was looked at. -/
structure ReadCalls where
  symlinkMetadata : Bool
  openFile : Bool
  metadata : Bool
  same : Bool
  readToEnd : Bool

/-- All calls succeed. -/
def ReadCalls.fine : ReadCalls := ⟨true, true, true, true, true⟩

/-- The calls of `save`. -/
structure SaveCalls where
  openOrCreate : Bool
  previous : ReadCalls
  backup : Bool
  write : WriteOutcome

/-- The calls of an edit. -/
structure EditCalls where
  first : ReadCalls
  save : SaveCalls

/-- `read_existing`. -/
def readExisting (calls : ReadCalls) (limit : ℕ) (p : Place) :
    Except ProviderError (Option (List UInt8)) :=
  match p with
  | .missing => .ok none
  | .refused _ => .error ⟨"provider credential directory is unsafe"⟩
  | .trusted entry =>
    if calls.symlinkMetadata = false then .error ⟨"provider credential file is unsafe"⟩
    else
      match entry with
      | none => .ok none
      | some e =>
        if e.ordinary = false ∨ limit < e.content.length then
          .error ⟨"provider credential file is unsafe"⟩
        else if calls.openFile = false ∨ calls.metadata = false then
          .error ⟨"provider credential file is unsafe"⟩
        else if calls.same = false then
          .error ⟨"provider credential file changed while opening"⟩
        else if calls.readToEnd = false then .error ⟨"provider credential read failed"⟩
        else .ok (some e.content)

/-- `read`. -/
def read (calls : ReadCalls) (limit : ℕ) (p : Place) : Option (List UInt8) :=
  match readExisting calls limit p with
  | .ok raw => raw
  | .error _ => none

/-- What `save` says when the write itself failed. -/
def writeFailed : ProviderError := ⟨"provider credential write failed"⟩

/-- `save`. -/
def save (calls : SaveCalls) (raw : List UInt8) (max : ℕ) (p : Place) :
    Place × Except ProviderError Unit :=
  if max < raw.length then (p, .error ⟨"provider credential is too large"⟩)
  else if calls.openOrCreate = false then (p, .error ⟨"provider credential directory is unsafe"⟩)
  else
    let p := p.created
    match readExisting calls.previous max p with
    | .error e => (p, .error e)
    | .ok previous =>
      if previous.isSome = true ∧ calls.backup = false then
        (p, .error ⟨"provider credential backup failed"⟩)
      else
        let written := calls.write.write p.entry ⟨raw, true⟩
        (p.put written.2, if written.1 then .ok () else .error writeFailed)

/-! ### JSON objects

The reader and the writer of the four files, with their limits. -/

/-- The limit of most files. -/
def settingsLimit : ℕ := 2 ^ 20

/-- The limit of `~/.claude.json`. -/
def stateLimit : ℕ := 64 * 2 ^ 20

section

variable (S : Serde)

/-- `json_object`. -/
def jsonObject (calls : ReadCalls) (limit : ℕ) (p : Place) : Except ProviderError Map :=
  match readExisting calls limit p with
  | .error e => .error e
  | .ok raw =>
    let before := raw.getD []
    if before = [] then .ok []
    else
      match S.fromSlice before with
      | none => .error ⟨"provider settings cannot be parsed"⟩
      | some (.obj map) => .ok map
      | some _ => .error ⟨"provider settings must be an object"⟩

/-- The text that `save_json` writes. -/
def settingsText (map : Map) : List UInt8 := pretty S.format 0 (.obj map) ++ [10]

/-- `save_json`. -/
def saveJson (calls : SaveCalls) (map : Map) (limit : ℕ) (p : Place) :
    Place × Except ProviderError Unit :=
  save calls (settingsText S map) limit p

/-- What becomes of an object: an error, nothing to write or a new object. -/
abbrev Rewrite := Map → Except ProviderError (Option Map)

/-- An edit of a JSON file. -/
def editJson (limit : ℕ) (rewrite : Rewrite) (calls : EditCalls) (p : Place) :
    Place × Except ProviderError Unit :=
  match jsonObject S calls.first limit p with
  | .error e => (p, .error e)
  | .ok map =>
    match rewrite map with
    | .error e => (p, .error e)
    | .ok none => (p, .ok ())
    | .ok (some map) => saveJson S calls.save map limit p

end

/-- An object is taken out of a map. -/
def takeObject (map : Map) (key message : String) : Except ProviderError (Map × Map) :=
  match map.get key with
  | some (.obj child) => .ok (child, map.remove key)
  | some _ => .error ⟨message⟩
  | none => .ok ([], map.remove key)

/-! ### The edits

What is done to an object is kept apart from how it is read and written. -/

/-- What `set_claude_key` does with the settings. -/
def claudeSettings (name key : String) (settings : Map) : Except ProviderError (Option Map) :=
  match takeObject settings "env" "~/.claude/settings.json의 env 항목이 객체가 아닙니다" with
  | .error e => .error e
  | .ok (env, settings) =>
    if key = "" ∧ (env.get name).isNone then .ok none
    else
      let env := if key = "" then env.remove name else env.insert name (.str key)
      .ok (some (if env = [] then settings else settings.insert "env" (.obj env)))

/-- The type that is selected, if it is a text. -/
def selectedType (auth : Map) : String := ((auth.get "selectedType").bind asStr).getD ""

/-- What `set_gemini_auth` does with the settings. -/
def geminiSettings (want : String) (replace : String → Bool) (settings : Map) :
    Except ProviderError (Option Map) :=
  match takeObject settings "security" "~/.gemini/settings.json의 security 항목이 객체가 아닙니다" with
  | .error e => .error e
  | .ok (security, settings) =>
    match takeObject security "auth" "~/.gemini/settings.json의 auth 항목이 객체가 아닙니다" with
    | .error e => .error e
    | .ok (auth, security) =>
      if selectedType auth = want ∨ replace (selectedType auth) = false then .ok none
      else
        let auth := if want = "" then auth.remove "selectedType"
          else auth.insert "selectedType" (.str want)
        let security := if auth = [] then security.remove "auth"
          else security.insert "auth" (.obj auth)
        .ok (some (if security = [] then settings.remove "security"
          else settings.insert "security" (.obj security)))

/-- `Value::as_bool`. -/
def asBool : Json → Option Bool
  | .bool b => some b
  | _ => none

/-- The last twenty bytes of a key, which are characters: keys are ASCII. -/
def keySuffix (key : String) : String := String.ofList (key.toList.drop (key.toList.length - 20))

/-- The first edit of `mark_claude_ready`. -/
def completeOnboarding (state : Map) : Map × Bool :=
  if (state.get "hasCompletedOnboarding").bind asBool ≠ some true then
    (state.insert "hasCompletedOnboarding" (.bool true), true)
  else (state, false)

/-- The second edit of `mark_claude_ready`. -/
def recordVersion (version : Option String) (state : Map × Bool) : Map × Bool :=
  if (state.1.get "lastOnboardingVersion").any (fun j => j.asStr.isSome) then state
  else
    match version with
    | some version => (state.1.insert "lastOnboardingVersion" (.str version), true)
    | none => state

/-- The third edit of `mark_claude_ready`. -/
def approveKey (key : String) (state : Map × Bool) : Except ProviderError (Map × Bool) :=
  if key = "" then .ok state
  else
    let suffix := keySuffix key
    match takeObject state.1 "customApiKeyResponses"
      "~/.claude.json의 customApiKeyResponses 항목이 객체가 아닙니다" with
    | .error e => .error e
    | .ok (responses, rest) =>
      let approve (approved : List Json) : Except ProviderError (Map × Bool) :=
        let known := approved.any fun j => j.asStr = some suffix
        let approved := if known then approved else approved ++ [.str suffix]
        let responses := (responses.remove "approved").insert "approved" (.arr approved)
        .ok (rest.insert "customApiKeyResponses" (.obj responses), state.2 || !known)
      match responses.get "approved" with
      | some (.arr approved) => approve approved
      | some _ => .error ⟨"~/.claude.json의 approved 항목이 배열이 아닙니다"⟩
      | none => approve []

/-- What `mark_claude_ready` does with the state. -/
def claudeState (key : String) (version : Option String) (state : Map) :
    Except ProviderError (Option Map) :=
  match approveKey key (recordVersion version (completeOnboarding state)) with
  | .error e => .error e
  | .ok (state, changed) => .ok (if changed then some state else none)

section

variable (S : Serde)

/-- `set_claude_key`. -/
def setClaudeKey (name key : String) : EditCalls → Place → Place × Except ProviderError Unit :=
  editJson S settingsLimit (claudeSettings name key)

/-- `set_gemini_auth`. -/
def setGeminiAuth (want : String) (replace : String → Bool) :
    EditCalls → Place → Place × Except ProviderError Unit :=
  editJson S settingsLimit (geminiSettings want replace)

/-- `mark_claude_ready`. -/
def markClaudeReady (key : String) (version : Option String) :
    EditCalls → Place → Place × Except ProviderError Unit :=
  editJson S stateLimit (claudeState key version)

/-- `set_dotenv`. -/
def setDotenv (name value : String) (calls : EditCalls) (p : Place) :
    Place × Except ProviderError Unit :=
  match readExisting calls.first settingsLimit p with
  | .error e => (p, .error e)
  | .ok raw =>
    match utf8 (raw.getD []) with
    | none => (p, .error ⟨"Gemini .env cannot be parsed"⟩)
    | some content =>
      match dotenvEdit name.toList value.toList content.toList with
      | none => (p, .ok ())
      | some data => save calls.save (bytes (String.ofList data)) settingsLimit p

/-! ### The readers

What the rest of the program looks for in these files. -/

/-- `claude_key`. -/
def claudeKey (calls : ReadCalls) (p : Place) : String :=
  match read calls settingsLimit p with
  | none => ""
  | some raw =>
    ((S.fromSlice raw).bind fun v =>
      (v.get "env").bind fun env => (env.get "ANTHROPIC_API_KEY").bind asStr).getD ""

/-- `gemini_selected_auth`. -/
def geminiSelectedAuth (calls : ReadCalls) (p : Place) : Except ProviderError String :=
  match jsonObject S calls settingsLimit p with
  | .error e => .error e
  | .ok settings =>
    .ok (((settings.get "security").bind fun v =>
      (v.get "auth").bind fun v => (v.get "selectedType").bind asStr).getD "")

end

/-- `dotenv_value`. -/
def dotenvValue (calls : ReadCalls) (key : String) (p : Place) : String :=
  match read calls settingsLimit p with
  | none => ""
  | some raw =>
    match utf8 raw with
    | none => ""
    | some text => String.ofList (dotenvText key.toList text.toList)

/-- `valid_key`. -/
def validKey (key : String) : Bool :=
  16 ≤ (bytes key).length && (bytes key).length ≤ 512 &&
    (bytes key).all fun b => (48 ≤ b && b ≤ 57) || (65 ≤ b && b ≤ 90) || (97 ≤ b && b ≤ 122) ||
      b = 46 || b = 95 || b = 45

end Hmux.Home
