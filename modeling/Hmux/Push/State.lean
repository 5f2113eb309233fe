import Hmux.Auth.Store
import Hmux.Lib.AtomicFile
import Hmux.Lib.Base64
import Hmux.Lib.Json.Codec
import Hmux.Lib.OrderedMap
import Mathlib.Data.String.Basic

namespace Hmux.Push

open Lib

/-!
# Push subscriptions

The store of the browsers that take notifications: for every login one subscription, kept in one
file together with the keys of the gateway.  A transaction runs alone, behind the lock of the
store.  What decides its way besides the state is its environment: the checks that the login is
still authorized, the answers of the login store, the flags of a caller that is gone or a store
that is closing, and how the file system answers.
-/

/-- `DISK_BYTES`. -/
def diskBytes : ℕ := 2 <<< 20

/-- `MAX_SUBSCRIPTIONS`. -/
def maxSubscriptions : ℕ := 256

/-- `Error`. -/
inductive Error
  | invalid | unauthorized | busy | unavailable
  deriving DecidableEq

/-- `Keys`. -/
structure Keys where
  auth : String
  p256dh : String
  deriving DecidableEq

/-- `Subscription`. -/
structure Subscription where
  endpoint : String
  keys : Keys
  deriving DecidableEq

/-- A parsed URI, as far as it is looked at. -/
structure Uri where
  scheme : Option String
  authority : Option String
  port : Bool

/-- The libraries: `sha256`, the parser of `http::Uri`, whether bytes are a point of the curve
    (`PublicKey::from_sec1_bytes`), and the public point of a scalar (`SecretKey::from_slice`). -/
structure Libraries where
  sha256 : List UInt8 → Vector UInt8 32
  uri : String → Option Uri
  publicKey : List UInt8 → Bool
  secretKey : List UInt8 → Option (List UInt8)

/-! ### Checks

The texts that come from a browser, and the keys that are kept of the gateway. -/

/-- `decode_canonical`. -/
def decodeCanonical (value : String) (n : ℕ) : Option (List UInt8) :=
  if (n * 4 + 2) / 3 < (bytes value).length then none
  else
    match Base64.urlSafeBytes value with
    | none => none
    | some decoded =>
      if decoded.length ≠ n || Base64.urlSafeNoPad decoded ≠ value then none else some decoded

/-- `valid_id`. -/
def validId (id : String) : Bool := (decodeCanonical id 32).isSome

/-- Every percent sign is followed by two digits. -/
def percentOk : List UInt8 → Bool
  | [] => true
  | b :: rest =>
    (b ≠ 37 ||
      match rest with
      | x :: y :: _ => isAsciiHexdigit x && isAsciiHexdigit y
      | _ => false) && percentOk rest

/-- A host that sends notifications. -/
def allowedHost (host : List Char) : Bool :=
  host = "fcm.googleapis.com".toList || host = "web.push.apple.com".toList ||
    host = "updates.push.services.mozilla.com".toList ||
    ".push.services.mozilla.com".toList.isSuffixOf host ||
    ".notify.windows.com".toList.isSuffixOf host

/-- `validate_endpoint`. -/
def validateEndpoint (L : Libraries) (endpoint : String) : Bool :=
  if 2048 < (bytes endpoint).length || !"https://".toList.isPrefixOf endpoint.toList ||
      (bytes endpoint).any (fun b => 128 ≤ b) ||
      (bytes endpoint).any (fun b => b ≤ 32 || b = 127 || b = 92 || b = 35) then false
  else if !percentOk (bytes endpoint) then false
  else
    let authority := (endpoint.toList.drop 8).takeWhile fun c => c ≠ '/' && c ≠ '?'
    if authority = [] || authority.any (fun c => c = '@' || c = ':' || c = '%') then false
    else
      match L.uri endpoint with
      | none => false
      | some uri =>
        if uri.scheme ≠ some "https" ||
          uri.authority ≠ some (String.ofList authority) || uri.port then
          false
        else
          allowedHost (authority.map fun c =>
            if 'A' ≤ c ∧ c ≤ 'Z' then Char.ofNat (c.toNat + 32) else c)

/-- `validate_subscription`. -/
def validateSubscription (L : Libraries) (sub : Subscription) : Bool :=
  validateEndpoint L sub.endpoint && (decodeCanonical sub.keys.auth 16).isSome &&
    match decodeCanonical sub.keys.p256dh 65 with
    | none => false
    | some point => point.head? = some 4 && L.publicKey point

/-- `validate_keys`. -/
def validateKeys (L : Libraries) (publicKey privateKey : String) : Bool :=
  match decodeCanonical privateKey 32 with
  | none => false
  | some scalar =>
    match L.secretKey scalar with
    | none => false
    | some expected =>
      match decodeCanonical publicKey 65 with
      | none => false
      | some encoded => encoded.head? = some 4 && expected = encoded

/-- `generate_keys`: the first of sixteen random scalars that is a secret key; a draw fails when the
    system has no random bytes. -/
def generateKeys (L : Libraries) : ℕ → List (Option (Vector UInt8 32)) → Option (String × String)
  | tries + 1, some scalar :: draws =>
    match L.secretKey scalar.toList with
    | some point => some (Base64.urlSafeNoPad point, Base64.urlSafeNoPad scalar.toList)
    | none => generateKeys L tries draws
  | _, _ => none

/-! ### The file

The reader refuses what the writer would not have written. -/

/-- The subscriptions by login, in the order of a `BTreeMap`. -/
abbrev Subscriptions := List (String × Subscription)

/-- `Keys` as JSON. -/
def Keys.codec : Codec Keys :=
  Codec.strictObject
    (((Fields.defaulted "auth" (Codec.string.nullDefault "") "").and
      (Fields.defaulted "p256dh" (Codec.string.nullDefault "") "")).map
      (fun (a, p) => ⟨a, p⟩) (fun k => (k.auth, k.p256dh)))

/-- `Subscription` as JSON. -/
def Subscription.codec : Codec Subscription :=
  Codec.strictObject
    (((Fields.defaulted "endpoint" (Codec.string.nullDefault "") "").and
      (Fields.required "keys" Keys.codec)).map
      (fun (e, k) => ⟨e, k⟩) (fun s => (s.endpoint, s.keys)))

/-- One turn of the loop of the visitor of the subscriptions. -/
def readEntry (L : Libraries) (out : Subscriptions) (e : String × Json) : Option Subscriptions :=
  if out.length = maxSubscriptions || !validId e.1 || (out.map Prod.fst).contains e.1 then none
  else
    match Subscription.codec.read e.2 with
    | none => none
    | some sub => if validateSubscription L sub then some (OrderedMap.insert e.1 sub out) else none

/-- `Subscriptions` as JSON. -/
def subscriptionsCodec (L : Libraries) : Codec Subscriptions where
  write subs := .obj (subs.map fun e => (e.1, Subscription.codec.write e.2))
  read
    | .obj fields => fields.foldlM (readEntry L) []
    | _ => none

/-- `DiskState`, and what `save` writes. -/
structure DiskState where
  version : Option Int64
  publicKey : Option String
  privateKey : Option String
  subscriptions : Subscriptions

/-- `DiskState` as JSON. -/
def DiskState.codec (L : Libraries) : Codec DiskState :=
  Codec.strictObject
    (((Fields.optional "version" .int64).and <| (Fields.optional "public_key" .string).and <|
      (Fields.optional "private_key" .string).and <|
      Fields.defaulted "subscriptions" ((subscriptionsCodec L).nullDefault []) []).map
      (fun (v, p, k, s) => ⟨v, p, k, s⟩)
      (fun d => (d.version, d.publicKey, d.privateKey, d.subscriptions)))

/-- What `save` writes. -/
def output (publicKey privateKey : String) (subscriptions : Subscriptions) : DiskState :=
  ⟨some 1, some publicKey, some privateKey, subscriptions⟩

/-- The bytes `save` writes. -/
def fileText (S : Serde) (L : Libraries) (d : DiskState) : List UInt8 :=
  S.text ((DiskState.codec L).write d)

/-- The file as `open` reads it: both keys, and the subscriptions. -/
def decodeFile (S : Serde) (L : Libraries) (raw : List UInt8) :
    Option (String × String × Subscriptions) :=
  match (S.fromSlice raw).bind (DiskState.codec L).read with
  | none => none
  | some parsed =>
    if parsed.version ≠ some 1 then none
    else
      match parsed.publicKey, parsed.privateKey with
      | some publicKey, some privateKey =>
        if validateKeys L publicKey privateKey then
          some (publicKey, privateKey, parsed.subscriptions)
        else none
      | _, _ => none

/-! ### Transactions

A transaction asks for the caller, the store and the login several times, because each may go away
while it runs. -/

/-- `State`, without the handles of the file. -/
structure State where
  expected : Option (Vector UInt8 32)
  publicKey : String
  privateKey : String
  subscriptions : Subscriptions
  failed : Bool
  deriving DecidableEq

/-- The file and the store that is open on it. -/
structure World where
  file : Option (List UInt8)
  store : Option State
  deriving DecidableEq

/-- How the file system answers a transaction: whether the file can be read, and how the write
    ends. -/
structure Io where
  reads : Bool
  outcome : WriteOutcome

/-- `State::read`; a file that is too long is not read. -/
def read (io : Io) (file : Option (List UInt8)) : Option (Option (List UInt8)) :=
  if !io.reads || file.any (fun raw => diskBytes < raw.length) then none else some file

/-- `State::save`, on the store `s` of the file. -/
def save (S : Serde) (L : Libraries) (io : Io) (file : Option (List UInt8)) (s : State)
    (next : Subscriptions) (check : Except Error Unit) : Except Error Unit × World :=
  if s.failed then (.error .unavailable, ⟨file, some s⟩)
  else
    let raw := fileText S L (output s.publicKey s.privateKey next)
    if diskBytes < raw.length then (.error .unavailable, ⟨file, some s⟩)
    else
      match read io file with
      | none => (.error .unavailable, ⟨file, some { s with failed := true }⟩)
      | some current =>
        if current.map L.sha256 ≠ s.expected then
          (.error .unavailable, ⟨file, some { s with failed := true }⟩)
        else
          match check with
          | .error e => (.error e, ⟨file, some s⟩)
          | .ok _ =>
            match io.outcome.write file raw with
            | (false, file) => (.error .unavailable, ⟨file, some { s with failed := true }⟩)
            | (true, file) =>
              (.ok (), ⟨file,
                some { s with expected := some (L.sha256 raw), subscriptions := next }⟩)

/-- `Store::open` once the name is valid: `lock` tells whether the lock of the file was taken,
    `draws` are random. -/
def openStore (S : Serde) (L : Libraries) (io : Io) (lock : Bool)
    (draws : List (Option (Vector UInt8 32))) (file : Option (List UInt8)) :
    Except Error Unit × World :=
  if !lock then (.error .unavailable, ⟨file, none⟩)
  else
    match read io file with
    | none => (.error .unavailable, ⟨file, none⟩)
    | some (some raw) =>
      match decodeFile S L raw with
      | none => (.error .unavailable, ⟨file, none⟩)
      | some (publicKey, privateKey, subscriptions) =>
        (.ok (), ⟨file, some ⟨some (L.sha256 raw), publicKey, privateKey, subscriptions, false⟩⟩)
    | some none =>
      match generateKeys L 16 draws with
      | none => (.error .unavailable, ⟨file, none⟩)
      | some (publicKey, privateKey) =>
        match save S L io file ⟨none, publicKey, privateKey, [], false⟩ [] (.ok ()) with
        | (.error e, w) => (.error e, { w with store := none })
        | (.ok _, w) => (.ok (), w)

/-- What `transact` meets before its work: the store is closed, no slot is free, the worker finds
    the store closed or its caller gone. -/
inductive Admission
  | closed | full | refused | admitted
  deriving DecidableEq

/-- `transact`. -/
def transact (admission : Admission) (w : World)
    (work : State → Except Error Unit × World) : Except Error Unit × World :=
  match admission, w.store with
  | .closed, _ => (.error .unavailable, w)
  | .full, _ => (.error .busy, w)
  | .refused, _ => (.error .unavailable, w)
  | .admitted, none => (.error .unavailable, w)
  | .admitted, some s => if s.failed then (.error .unavailable, w) else work s

/-- `authorized`: the identifier is valid, and the login is neither cancelled nor expired. -/
def authorized (access : Auth.SessionAccess) (current : Bool) : Except Error Unit :=
  if validId access.id && current then .ok () else .error .unauthorized

/-- An answer of the login store that must be yes. -/
def requireLive (live : Except Error Bool) : Except Error Unit :=
  match live with
  | .error e => .error e
  | .ok false => .error .unauthorized
  | .ok true => .ok ()

/-- The caller is gone or the store closes. -/
def requireOpen (gone : Bool) : Except Error Unit := if gone then .error .unavailable else .ok ()

/-- What `subscribe` meets, check by check. -/
structure SubscribeEnv where
  current : Bool
  admission : Admission
  current₁ : Bool
  live₁ : Except Error Bool
  liveOld : String → Except Error Bool
  current₂ : Bool
  live₂ : Except Error Bool
  gone₂ : Bool
  io : Io
  current₃ : Bool
  live₃ : Except Error Bool
  current₄ : Bool
  gone₃ : Bool

/-- One turn of the loop of `subscribe`: an old subscription is kept when it is of another login
    that is live and has another endpoint. -/
def keep (access : Auth.SessionAccess) (sub : Subscription) (live : String → Except Error Bool)
    (next : Subscriptions) (old : String × Subscription) : Except Error Subscriptions :=
  if old.1 ≠ access.id && old.2.endpoint ≠ sub.endpoint then
    match live old.1 with
    | .error e => .error e
    | .ok true => .ok (OrderedMap.insert old.1 old.2 next)
    | .ok false => .ok next
  else .ok next

/-- What `subscribe` saves, unless a check fails. -/
def subscribed (access : Auth.SessionAccess) (sub : Subscription) (env : SubscribeEnv) (s : State) :
    Except Error Subscriptions := do
  authorized access env.current₁
  requireLive env.live₁
  let next ← s.subscriptions.foldlM (keep access sub env.liveOld) []
  let next := OrderedMap.insert access.id sub next
  if maxSubscriptions < next.length then .error .busy
  else
    authorized access env.current₂
    requireLive env.live₂
    requireOpen env.gone₂
    return next

/-- `subscribe`. -/
def subscribe (S : Serde) (L : Libraries) (w : World) (access : Auth.SessionAccess)
    (sub : Subscription) (env : SubscribeEnv) : Except Error Unit × World :=
  match authorized access env.current with
  | .error e => (.error e, w)
  | .ok _ =>
    if !validateSubscription L sub then (.error .invalid, w)
    else
      transact env.admission w fun s =>
        match subscribed access sub env s with
        | .error e => (.error e, w)
        | .ok next =>
          save S L env.io w.file s next do
            authorized access env.current₃
            requireLive env.live₃
            authorized access env.current₄
            requireOpen env.gone₃

/-- What `remove` meets. -/
structure RemoveEnv where
  admission : Admission
  gone₁ : Bool
  io : Io
  gone₂ : Bool

/-- `remove`. -/
def remove (S : Serde) (L : Libraries) (w : World) (loginId : String) (guard : Option String)
    (env : RemoveEnv) : Except Error Unit × World :=
  if !validId loginId || guard.any (fun e => 2048 < (bytes e).length) then (.error .invalid, w)
  else
    transact env.admission w fun s =>
      match s.subscriptions.lookup loginId with
      | none => (.ok (), w)
      | some old =>
        if guard.any fun e => e ≠ "" && e ≠ old.endpoint then (.ok (), w)
        else
          match requireOpen env.gone₁ with
          | .error e => (.error e, w)
          | .ok _ =>
            save S L env.io w.file s (s.subscriptions.filter fun e => e.1 ≠ loginId)
              (requireOpen env.gone₂)

/-! ### Runs

The steps of the gateway: transactions, and a store that is opened again. -/

/-- A step of the gateway. -/
inductive Op
  | reopen (io : Io) (lock : Bool) (draws : List (Option (Vector UInt8 32)))
  | subscribe (access : Auth.SessionAccess) (sub : Subscription) (env : SubscribeEnv)
  | remove (loginId : String) (guard : Option String) (env : RemoveEnv)

/-- One step: a store that is opened again replaces the one that was open. -/
def step (S : Serde) (L : Libraries) (w : World) : Op → Except Error Unit × World
  | .reopen io lock draws => openStore S L io lock draws w.file
  | .subscribe access sub env => subscribe S L w access sub env
  | .remove loginId guard env => remove S L w loginId guard env

/-- A run. -/
def run (S : Serde) (L : Libraries) (w : World) (ops : List Op) : World :=
  ops.foldl (fun w op => (step S L w op).2) w

/-- Nothing was ever stored. -/
def World.fresh : World := ⟨none, none⟩

end Hmux.Push
