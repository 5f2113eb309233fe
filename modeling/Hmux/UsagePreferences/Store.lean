import Hmux.Lib.AtomicFile
import Hmux.Lib.Json.Codec
import Hmux.Lib.Machine

namespace Hmux.UsagePreferences

open Lib

/-!
# Usage preferences — the store of the gateway

The settings of every account (`hmux-gateway/src/usage_preferences.rs`): one small file each, a
bounded cache in front of the files, and a revision that a caller must present to change them.
A transaction runs alone, behind the lock of the store; at most two of them are admitted at a
time.  What decides its way besides the state is its environment: whether the login is still
authorized, whether a read succeeds and how the write ends.
-/

/-- `CACHE_ACCOUNTS`. -/
def cacheAccounts : ℕ := 9

/-- `IO_WORKERS`. -/
def ioWorkers : ℕ := 2

/-- `MAX_BYTES`. -/
def maxBytes : ℕ := 4096

/-- `MAX_REVISION`. -/
def maxRevision : Int64 := 9007199254740992

/-- `Error`. -/
inductive Error
  | invalid | conflict | busy | unavailable | unauthorized
  deriving DecidableEq, Repr

/-! ### Preferences

The settings of an account with their revision, and the checks that bound them. -/

/-- `ProviderPreference`. -/
structure ProviderPreference where
  enabled : Bool
  source : String
  deriving DecidableEq, Repr

/-- `Preferences`. -/
structure Preferences where
  version : Int64
  revision : Int64
  claude : ProviderPreference
  codex : ProviderPreference
  deriving DecidableEq, Repr

namespace Preferences

/-- `Preferences::default`. -/
def initial : Preferences := ⟨1, 0, ⟨true, "cswap"⟩, ⟨true, "codex-lb"⟩⟩

/-- `Preferences::valid`. -/
def valid (v : Preferences) : Bool :=
  v.version == 1 && (0 ≤ v.revision && v.revision < maxRevision) &&
    (v.claude.source == "cli" || v.claude.source == "cswap") &&
    (v.codex.source == "cli" || v.codex.source == "codex-lb")

end Preferences

/-- The fields of `ProviderPreference`. -/
def providerFields : Fields ProviderPreference :=
  Fields.map
    (Fields.and (.defaulted "enabled" (.nullDefault .bool false) false) <|
     .defaulted "source" (.nullDefault .string "") "")
    (fun (enabled, source) => ⟨enabled, source⟩) (fun v => (v.enabled, v.source))

/-- `provider`: an object or a null. -/
def providerCodec : Codec ProviderPreference := .objectOrNull providerFields ⟨false, ""⟩

/-- The fields of `Preferences`. -/
def preferencesFields : Fields Preferences :=
  Fields.map
    (Fields.and (.defaulted "version" (.nullDefault .int64 0) 0) <|
     Fields.and (.defaulted "revision" (.nullDefault .int64 0) 0) <|
     Fields.and (.defaulted "claude" providerCodec ⟨false, ""⟩) <|
     .defaulted "codex" providerCodec ⟨false, ""⟩)
    (fun (version, revision, claude, codex) => ⟨version, revision, claude, codex⟩)
    (fun v => (v.version, v.revision, v.claude, v.codex))

/-- `Preferences` as JSON. -/
def preferencesCodec : Codec Preferences := .object preferencesFields

/-- `to_vec`. -/
def encode (S : Serde) (v : Preferences) : List UInt8 := S.text (preferencesCodec.write v)

/-- `Preferences::decode`. -/
def decode (S : Serde) (raw : List UInt8) : Except Error Preferences :=
  if maxBytes < raw.length ∨ raw.find? (!isAsciiWhitespace ·) ≠ some 123 then .error .invalid
  else
    match (S.fromSlice raw).bind preferencesCodec.read with
    | none => .error .invalid
    | some value => if !value.valid then .error .invalid else .ok value

/-! ### Accounts and their files

The file of an account is named by a digest of its name and profile. -/

/-- The accounts of a gateway: distinct pairs of a username and a profile.  No username contains
    a NUL, which separates the two in the digest. -/
structure Accounts (ι : Type) where
  username : ι → String
  profile : ι → String
  noNul : ∀ i, 0 ∉ bytes (username i)
  distinct : ∀ i j, username i = username j → profile i = profile j → i = j

/-- A digest. -/
abbrev Key := Vector UInt8 32

section

variable {ι : Type} (A : Accounts ι) (sha256 : List UInt8 → Key)

/-- What `usage_preference_digest` hashes. -/
def preimage (i : ι) : List UInt8 := bytes (A.username i) ++ 0 :: bytes (A.profile i)

/-- `key`. -/
def key (i : ι) : Key := sha256 (preimage A i)

end

/-- `filename`. -/
def filename (key : Key) : String :=
  String.ofList (hexOf key.toList) ++ ".json"

/-! ### State

Behind the lock there are the files and a small cache; a transaction reads, compares the revision,
writes and caches. -/

/-- `State`: the files of the directory and the cache, the oldest entry first. -/
structure State where
  files : String → Option (List UInt8)
  cache : List (Key × Preferences)

/-- What a transaction meets: the two checks of the login, the two reads and the write. -/
structure Env where
  authorized : Bool
  readable : Bool
  readableAgain : Bool
  stillAuthorized : Bool
  outcome : WriteOutcome

/-- How a transaction ends: its result, the state, and the preferences that replaced the file. -/
structure Ended where
  result : Except Error Preferences
  state : State
  committed : Option Preferences

section

variable (S : Serde)

/-- `State::read`; `readable` is false when the file system fails. -/
def State.read (s : State) (key : Key) (readable : Bool) : Except Error Preferences :=
  if !readable then .error .unavailable
  else
    match s.files (filename key) with
    | none => .ok .initial
    | some raw =>
      if maxBytes < raw.length then .error .unavailable
      else
        match decode S raw with
        | .error _ => .error .unavailable
        | .ok value => .ok value

/-- The cached preferences of an account. -/
def State.cached (s : State) (key : Key) : Option Preferences :=
  (s.cache.find? fun e => e.1 = key).map Prod.snd

/-- Drop the entry of an account. -/
def State.forget (s : State) (key : Key) : State :=
  { s with cache := s.cache.filter fun e => e.1 ≠ key }

/-- `State::cache`. -/
def State.remember (s : State) (key : Key) (value : Preferences) : State :=
  let cache := s.cache.filter fun e => e.1 ≠ key
  let cache := if cache.length = cacheAccounts then cache.tail else cache
  { s with cache := cache ++ [(key, value)] }

/-- `State::get`. -/
def State.get (s : State) (key : Key) (readable : Bool) : Except Error Preferences × State :=
  match s.cached key with
  | some value => (.ok value, s)
  | none =>
    match s.read S key readable with
    | .error e => (.error e, s)
    | .ok value => (.ok value, s.remember key value)

/-- The end of `State::set`: the write, and the cache after it. -/
def State.commit (s : State) (key : Key) (next : Preferences) (outcome : WriteOutcome) : Ended :=
  let written := outcome.write (s.files (filename key)) (encode S next)
  let files := fun name => if name = filename key then written.2 else s.files name
  let committed := if outcome = .beforeCommit then none else some next
  let s := { s with files }
  if written.1 then ⟨.ok next, s.remember key next, committed⟩
  else ⟨.error .unavailable, s.forget key, committed⟩

/-- `State::set`. -/
def State.set (s : State) (key : Key) (next : Preferences) (env : Env) : Ended :=
  if !env.authorized then ⟨.error .unauthorized, s, none⟩
  else if !next.valid then ⟨.error .invalid, s, none⟩
  else
    match s.get S key env.readable with
    | (.error e, s) => ⟨.error e, s, none⟩
    | (.ok old, s) =>
      match s.read S key env.readableAgain with
      | .error e => ⟨.error e, s, none⟩
      | .ok current =>
        if old ≠ current ∨ current.revision ≠ next.revision then
          ⟨.error .conflict, s.remember key current, none⟩
        else
          let next := { next with revision := next.revision + 1 }
          if !next.valid then ⟨.error .unavailable, s, none⟩
          else if !env.stillAuthorized then ⟨.error .unauthorized, s, none⟩
          else s.commit S key next env.outcome

end

/-! ### Store

A transaction is admitted first and gets the lock later, so several of them may wait in between. -/

/-- A transaction that was admitted. -/
inductive Job (ι : Type)
  | get (account : ι)
  | set (account : ι) (next : Preferences)

/-- Whose transaction it is. -/
def Job.account {ι : Type} : Job ι → ι
  | .get i => i
  | .set i _ => i

/-- `Store`: the state behind the lock and the transactions that hold a permit. -/
structure Store (ι : Type) where
  state : State
  jobs : List (Job ι)
  closed : Bool

/-- A store with no files. -/
def Store.empty (ι : Type) : Store ι := ⟨⟨fun _ => none, []⟩, [], false⟩

/-- What `transact` meets: whether a permit is free and whether the store is closed by then. -/
structure Admission where
  permit : Bool
  closed : Bool

/-- What happens to a store. -/
inductive Action (ι : Type)
  /-- A call of `Store::get`; `lock` says whether `try_lock` got the lock. -/
  | get (account : ι) (lock : Bool) (admission : Admission)
  /-- A call of `Store::set`. -/
  | set (account : ι) (next : Preferences) (admission : Admission)
  /-- The lock goes to one of the admitted transactions, which runs to its end. -/
  | work (index : ℕ) (env : Env)
  /-- `Store::shutdown`. -/
  | shutdown
  /-- The gateway ends, at any time, and is started again. -/
  | restart

/-- An answer to a caller. -/
inductive Reply (ι : Type)
  | get (account : ι) (result : Except Error Preferences)
  | set (account : ι) (next : Preferences) (result : Except Error Preferences)

/-- A file that was replaced: by a call that carried `request`, with `value`. -/
structure Commit (ι : Type) where
  account : ι
  request : Preferences
  value : Preferences

/-- What a step shows: the answer to a caller and the file it replaced. -/
structure Output (ι : Type) where
  reply : Option (Reply ι)
  commit : Option (Commit ι)

section

variable {ι : Type} (S : Serde) (A : Accounts ι) (sha256 : List UInt8 → Key)

/-- The answer to the caller of a transaction. -/
def Job.reply (job : Job ι) (result : Except Error Preferences) : Reply ι :=
  match job with
  | .get i => .get i result
  | .set i next => .set i next result

/-- The admission of `transact`. -/
def Store.transact (s : Store ι) (job : Job ι) (admission : Admission) : Store ι × Output ι :=
  if !admission.permit || ioWorkers ≤ s.jobs.length then
    (s, ⟨some (job.reply (.error .busy)), none⟩)
  else if admission.closed || s.closed then
    (s, ⟨some (job.reply (.error .unavailable)), none⟩)
  else ({ s with jobs := s.jobs ++ [job] }, ⟨none, none⟩)

/-- `Store::get`. -/
def Store.get (s : Store ι) (i : ι) (lock : Bool) (admission : Admission) : Store ι × Output ι :=
  if s.closed then (s, ⟨some (.get i (.error .unavailable)), none⟩)
  else
    match (if lock then s.state.cached (key A sha256 i) else none) with
    | some value => (s, ⟨some (.get i (.ok value)), none⟩)
    | none => s.transact (.get i) admission

/-- `Store::set`. -/
def Store.set (s : Store ι) (i : ι) (next : Preferences) (admission : Admission) :
    Store ι × Output ι :=
  if !next.valid then (s, ⟨some (.set i next (.error .invalid)), none⟩)
  else s.transact (.set i next) admission

/-- A transaction with the lock. -/
def Store.perform (s : Store ι) (job : Job ι) (env : Env) : Store ι × Output ι :=
  match job with
  | .get i =>
    let ended := s.state.get S (key A sha256 i) env.readable
    ({ s with state := ended.2 }, ⟨some (.get i ended.1), none⟩)
  | .set i next =>
    let ended := s.state.set S (key A sha256 i) next env
    ({ s with state := ended.state },
      ⟨some (.set i next ended.result), ended.committed.map fun value => ⟨i, next, value⟩⟩)

/-- One step. -/
def Store.step (s : Store ι) : Action ι → Store ι × Output ι
  | .get i lock admission => s.get A sha256 i lock admission
  | .set i next admission => s.set i next admission
  | .work index env =>
    match s.jobs[index]? with
    | none => (s, ⟨none, none⟩)
    | some job => Store.perform S A sha256 { s with jobs := s.jobs.eraseIdx index } job env
  | .shutdown => ({ s with closed := true }, ⟨none, none⟩)
  | .restart => (⟨⟨s.state.files, []⟩, [], false⟩, ⟨none, none⟩)

/-- A run, with what its steps show. -/
def Store.run (s : Store ι) : List (Action ι) → Store ι × List (Output ι)
  | [] => (s, [])
  | action :: actions =>
    let stepped := s.step S A sha256 action
    let rest := Store.run stepped.1 actions
    (rest.1, stepped.2 :: rest.2)

end

end Hmux.UsagePreferences
