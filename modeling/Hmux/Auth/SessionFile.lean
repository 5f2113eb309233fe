import Hmux.Auth.Credentials
import Hmux.Lib.Json.Codec
import Hmux.Lib.Table

namespace Hmux.Auth

open Lib

/-!
# The session file

`auth.rs`: the stored logins as Go's `encoding/json` writes them, and what the gateway accepts when
it starts.  A row is kept when its account still has the profile and the fingerprint it was made
for and it has not expired; the other rows are dropped.  A row that no login writes makes the whole
file invalid.

* `validateSessionFile_ok` — which files are accepted, and what is kept of them.

Instants are nanoseconds since the start of 1970; `parseTime` is `DateTime::parse_from_rfc3339`.
-/

/-! ### Addresses

The parser of the standard library, step by step: four numbers below 256, or up to eight groups
with one gap that may end in an IPv4 address. -/

namespace IpAddr

/-- `to_digit`. -/
def toDigit (radix : ℕ) (c : Char) : Option ℕ :=
  let n := c.toNat
  let d :=
    if 48 ≤ n ∧ n ≤ 57 then n - 48
    else if 97 ≤ n ∧ n ≤ 122 then n - 87
    else if 65 ≤ n ∧ n ≤ 90 then n - 55
    else radix
  if d < radix then some d else none

/-- `Parser::read_number`: a number of so many digits at most, below `bound`. -/
def number (radix maxDigits bound : ℕ) (zeroPrefix : Bool) (l : List Char) : Option (List Char) :=
  let digits := l.takeWhile fun c => (toDigit radix c).isSome
  let value := digits.foldl (fun n c => n * radix + (toDigit radix c).getD 0) 0
  if digits.isEmpty || maxDigits < digits.length || bound ≤ value ||
      (!zeroPrefix && l.head? == some '0' && 1 < digits.length) then none
  else some (l.drop digits.length)

/-- `Parser::read_given_char`. -/
def given (c : Char) : List Char → Option (List Char)
  | d :: rest => if d = c then some rest else none
  | [] => none

/-- `Parser::read_separator`: there is none before the first part. -/
def separator (c : Char) (index : ℕ) (l : List Char) : Option (List Char) :=
  if index = 0 then some l else given c l

/-- `Parser::read_ipv4_addr`. -/
def ipv4 (l : List Char) : Option (List Char) :=
  (List.range 4).foldl (fun rest index =>
    (rest.bind (separator '.' index)).bind (number 10 3 256 false)) (some l)

/-- `read_groups`: how many groups there are and whether the last two were written as an IPv4
    address. -/
def groups (index : ℕ) : ℕ → List Char → ℕ × Bool × List Char
  | 0, l => (index, false, l)
  | left + 1, l =>
    match if 0 < left then (separator ':' index l).bind ipv4 else none with
    | some rest => (index + 2, true, rest)
    | none =>
      match (separator ':' index l).bind (number 16 4 65536 true) with
      | some rest => groups (index + 1) left rest
      | none => (index, false, l)

/-- `Parser::read_ipv6_addr`. -/
def ipv6 (l : List Char) : Option (List Char) :=
  match groups 0 8 l with
  | (size, v4, rest) =>
    if size = 8 then some rest
    else if v4 then none
    else
      match (given ':' rest).bind (given ':') with
      | some rest => some (groups 0 (8 - (size + 1)) rest).2.2
      | none => none

/-- `parse::<IpAddr>` succeeds. -/
def valid (text : String) : Bool :=
  ((ipv4 text.toList).or (ipv6 text.toList)).any List.isEmpty

end IpAddr

/-! ### Rows

What is written of a login and what is read of a row, and the bounds that the source puts on both.
-/

/-- `PersistedSession`. -/
structure PersistedSession where
  tokenHash : String
  id : String
  username : String
  profile : String
  credentialFingerprint : String
  browser : String
  ip : String
  createdAt : String
  lastSeenAt : String
  expiresAt : String
  deriving DecidableEq

/-- `PersistedSessionFile`. -/
structure PersistedSessionFile where
  version : Int32
  sessions : Option (List PersistedSession)
  deriving DecidableEq

/-- `SESSION_FILE_VERSION`. -/
def sessionFileVersion : Int32 := 1

/-- `SESSION_FILE_LIMIT`. -/
def sessionFileLimit : ℕ := 128 * 1024

/-- `MAX_SESSIONS_PER_ACCOUNT`. -/
def maxSessionsPerAccount : ℕ := 8

/-- `LOGIN_LIFETIME_SECONDS`, in nanoseconds. -/
def loginLifetime : ℤ := 7 * 24 * 60 * 60 * 1000000000

/-- How far a clock may be behind, in nanoseconds. -/
def clockSkew : ℤ := 5 * 60 * 1000000000

/-- `DateTime::MAX_UTC`, the end of the year 262142. -/
def maxUtc : ℤ := 8210266876799999999999

namespace PersistedSession

/-- A row as `go_json` writes it. -/
def goJson (row : PersistedSession) : List Char :=
  "\x7b\"token_hash\":".toList ++ Json.goString row.tokenHash ++
  ",\"id\":".toList ++ Json.goString row.id ++
  ",\"username\":".toList ++ Json.goString row.username ++
  ",\"profile\":".toList ++ Json.goString row.profile ++
  ",\"credential_fingerprint\":".toList ++ Json.goString row.credentialFingerprint ++
  ",\"browser\":".toList ++ Json.goString row.browser ++
  ",\"ip\":".toList ++ Json.goString row.ip ++
  ",\"created_at\":".toList ++ Json.goString row.createdAt ++
  ",\"last_seen_at\":".toList ++ Json.goString row.lastSeenAt ++
  ",\"expires_at\":".toList ++ Json.goString row.expiresAt ++ "\x7d".toList

/-- The fields of a row. -/
def fields : Fields PersistedSession :=
  ((Fields.text "token_hash").and <| (Fields.text "id").and <| (Fields.text "username").and <|
    (Fields.text "profile").and <| (Fields.text "credential_fingerprint").and <|
    (Fields.text "browser").and <| (Fields.text "ip").and <| (Fields.text "created_at").and <|
    (Fields.text "last_seen_at").and (Fields.text "expires_at")).map
    (fun (a, b, c, d, e, f, g, h, i, j) => ⟨a, b, c, d, e, f, g, h, i, j⟩)
    (fun r => (r.tokenHash, r.id, r.username, r.profile, r.credentialFingerprint, r.browser, r.ip,
      r.createdAt, r.lastSeenAt, r.expiresAt))

/-- `Deserialize` of a row. -/
def codec : Codec PersistedSession :=
  Codec.objectOrNull fields ⟨"", "", "", "", "", "", "", "", "", ""⟩

theorem codec_reads (row : PersistedSession) : codec.Reads row := by
  rw [codec, Codec.objectOrNull_reads (by decide)]
  apply Fields.map_reads rfl
  simp

end PersistedSession

namespace PersistedSessionFile

/-- The rows with commas between them. -/
def goRows : List PersistedSession → List Char
  | [] => []
  | [row] => row.goJson
  | row :: rows => row.goJson ++ ',' :: goRows rows

/-- `go_json`. -/
def goJson (file : PersistedSessionFile) : String :=
  String.ofList <|
    "\x7b\"version\":".toList ++ (toString file.version.toInt).toList ++ ",\"sessions\":".toList ++
    match file.sessions with
    | none => "null\x7d".toList
    | some rows => '[' :: goRows rows ++ "]\x7d".toList

/-- `Deserialize` of a file. -/
def codec : Codec PersistedSessionFile :=
  Codec.objectOrNull
    (((Fields.defaulted "version" .int32 0).and
      (Fields.defaulted "sessions" PersistedSession.codec.list.option none)).map
      (fun (a, b) => ⟨a, b⟩) (fun f => (f.version, f.sessions)))
    ⟨0, none⟩

theorem codec_reads (file : PersistedSessionFile) : codec.Reads file := by
  rw [codec, Codec.objectOrNull_reads (by decide)]
  apply Fields.map_reads rfl
  rw [Fields.and_reads, Fields.defaulted_reads, Fields.defaulted_reads]
  refine ⟨Codec.int32_reads _, Codec.option_reads (fun rows h => ?_) (fun rows => ?_) _⟩
  · cases h
  · exact Codec.list_reads fun row _ => PersistedSession.codec_reads row

end PersistedSessionFile

/-! ### Reading

The loop over the rows keeps what it has seen, since the ids must differ and an account has only so
many rows that are kept. -/

/-- `require_json_object`. -/
def isJsonObject (raw : List UInt8) : Bool := (raw.find? fun b => !Serde.isBlank b) == some 123

/-- `parse_session_file`. -/
def parseSessionFile (S : Serde) (raw : List UInt8) : Except String PersistedSessionFile :=
  if sessionFileLimit < raw.length then .error "session file too large"
  else if !isJsonObject raw then .error "JSON object required"
  else
    match (S.fromSlice raw).bind PersistedSessionFile.codec.read with
    | some file => .ok file
    | none => .error "invalid session JSON"

/-- `valid_session_text` and `valid_text`. -/
def validText (value : String) (limit : ℕ) : Bool :=
  !(value == "") && (bytes value).length ≤ limit &&
    !value.toList.any fun c => c.toNat ≤ 31 || c.toNat == 127

/-- The zero time of Go. -/
def isZeroTime (t : ℤ) : Bool :=
  (Civil.date t).year == 1 && (Civil.date t).month == 1 && (Civil.date t).day == 1 &&
    Civil.second t == 0 && t % 1000000000 == 0

/-- The accounts that rows are checked against: profile and credentials of a username. -/
abbrev Owners := Table String (String × Credentials)

/-- `ValidatedSessions`. -/
structure ValidatedSessions where
  retained : List PersistedSession
  dirty : Bool

/-- The state of the loop over the rows. -/
structure Scan where
  ids : List String
  tokens : List (List UInt8)
  retained : List PersistedSession
  dirty : Bool

section

variable (C : Crypto) (parseTime : String → Option ℤ) (now : ℤ) (accounts : Owners)

/-- The times of a row. -/
structure RowTimes where
  created : ℤ
  seen : ℤ
  expires : ℤ
  deriving DecidableEq

/-- The times of a row as they are read. -/
def PersistedSession.times (row : PersistedSession) : Option RowTimes :=
  match parseTime row.createdAt, parseTime row.lastSeenAt, parseTime row.expiresAt with
  | some created, some seen, some expires => some ⟨created, seen, expires⟩
  | _, _, _ => none

/-- The rows kept so far for the account of a row. -/
def Scan.count (acc : Scan) (row : PersistedSession) : ℕ :=
  acc.retained.countP fun r => r.username == row.username && r.profile == row.profile

/-- One row.  Past the last instant the sum with the clock skew panics, which ends the start as an
    error does. -/
def scanRow (acc : Scan) (row : PersistedSession) : Except String Scan :=
  match Base64.urlSafeBytes row.tokenHash with
  | none => .error "invalid token hash"
  | some hash =>
  match Base64.urlSafeBytes row.id with
  | none => .error "invalid login id"
  | some id =>
  match row.times parseTime with
  | none => .error "invalid session time"
  | some times =>
    if hash.length ≠ 32 || id.length ≠ 32 || acc.ids.contains row.id || !validText row.browser 80 ||
        (row.ip ≠ "unknown" && !IpAddr.valid row.ip) || isZeroTime times.created ||
        times.created + loginLifetime ≠ times.expires || times.seen < times.created ||
        times.expires < times.seen || maxUtc < now + clockSkew ||
        now + clockSkew < times.created then
      .error "invalid session file"
    else
      let acc := { acc with ids := acc.ids ++ [row.id] }
      match accounts.get? row.username with
      | none => .ok { acc with dirty := true }
      | some (profile, credentials) =>
        if row.profile ≠ profile || row.credentialFingerprint ≠ credentials.fingerprint C ||
            times.expires ≤ now then
          .ok { acc with dirty := true }
        else if maxSessionsPerAccount < acc.count row + 1 || acc.tokens.contains hash then
          .error "invalid session file"
        else .ok { acc with tokens := acc.tokens ++ [hash], retained := acc.retained ++ [row] }

/-- `validate_session_file`. -/
def validateSessionFile (file : PersistedSessionFile) : Except String ValidatedSessions :=
  if file.version ≠ sessionFileVersion then .error "invalid session file"
  else
    match (file.sessions.getD []).foldlM (scanRow C parseTime now accounts) ⟨[], [], [], false⟩ with
    | .ok acc => .ok ⟨acc.retained, acc.dirty⟩
    | .error message => .error message

/-! ### What is accepted

The loop is turned into a condition on the rows as a list, by induction from the front with what
was seen before as a parameter. -/

/-- The bytes of the token hash. -/
def PersistedSession.token (row : PersistedSession) : List UInt8 :=
  (Base64.urlSafeBytes row.tokenHash).getD []

/-- What is asked of a row alone. -/
structure RowValid (row : PersistedSession) (times : RowTimes) : Prop where
  hash : ∃ hash, Base64.urlSafeBytes row.tokenHash = some hash ∧ hash.length = 32
  id : ∃ id, Base64.urlSafeBytes row.id = some id ∧ id.length = 32
  read : row.times parseTime = some times
  browser : validText row.browser 80 = true
  ip : row.ip = "unknown" ∨ IpAddr.valid row.ip = true
  zero : isZeroTime times.created = false
  expires : times.expires = times.created + loginLifetime
  seen : times.created ≤ times.seen ∧ times.seen ≤ times.expires
  skew : times.created ≤ now + clockSkew ∧ now + clockSkew ≤ maxUtc

/-- The row belongs to an account as it is now, and it has not expired. -/
def kept (row : PersistedSession) : Bool :=
  (accounts.get? row.username).any fun (profile, credentials) =>
    row.profile == profile && row.credentialFingerprint == credentials.fingerprint C &&
      (row.times parseTime).any fun times => now < times.expires

/-- The loop after one more row. -/
def Scan.next (acc : Scan) (row : PersistedSession) : Scan :=
  if kept C parseTime now accounts row then
    ⟨acc.ids ++ [row.id], acc.tokens ++ [row.token], acc.retained ++ [row], acc.dirty⟩
  else ⟨acc.ids ++ [row.id], acc.tokens, acc.retained, true⟩

end

variable {C : Crypto} {parseTime : String → Option ℤ} {now : ℤ} {accounts : Owners}

theorem RowValid.token {row : PersistedSession} {times : RowTimes}
    (h : RowValid parseTime now row times) :
    Base64.urlSafeBytes row.tokenHash = some row.token := by
  obtain ⟨hash, hhash, -⟩ := h.hash
  rw [PersistedSession.token, hhash]
  rfl

/-- **One row** is accepted when it is valid alone, its id is new, and the account has room for it
    and it repeats no token if it is kept. -/
theorem scanRow_ok {acc acc' : Scan} {row : PersistedSession} :
    scanRow C parseTime now accounts acc row = .ok acc' ↔
      (∃ times, RowValid parseTime now row times) ∧ row.id ∉ acc.ids ∧
      (kept C parseTime now accounts row = true →
        acc.count row < maxSessionsPerAccount ∧ row.token ∉ acc.tokens) ∧
      acc' = acc.next C parseTime now accounts row := by
  -- first whether the three texts can be read at all
  cases hhash : Base64.urlSafeBytes row.tokenHash with
  | none =>
    have hnot : ¬∃ times, RowValid parseTime now row times := by
      rintro ⟨times, hvalid⟩
      cases hhash.symm.trans hvalid.token
    simp [scanRow, hhash, hnot]
  | some hash =>
  cases hid : Base64.urlSafeBytes row.id with
  | none =>
    have hnot : ¬∃ times, RowValid parseTime now row times := by
      rintro ⟨times, hvalid⟩
      obtain ⟨id, hid', -⟩ := hvalid.id
      cases hid.symm.trans hid'
    simp [scanRow, hhash, hid, hnot]
  | some id =>
  cases htimes : row.times parseTime with
  | none =>
    have hnot : ¬∃ times, RowValid parseTime now row times := by
      rintro ⟨times, hvalid⟩
      cases htimes.symm.trans hvalid.read
    simp [scanRow, hhash, hid, htimes, hnot]
  | some times =>
    have htoken : row.token = hash := by rw [PersistedSession.token, hhash]; rfl
    -- the checks of the loop, one after the other, are those of a valid row
    have hvalid : (∃ times, RowValid parseTime now row times) ∧ row.id ∉ acc.ids ↔
        (hash.length ≠ 32 || id.length ≠ 32 || acc.ids.contains row.id ||
          !validText row.browser 80 || (row.ip ≠ "unknown" && !IpAddr.valid row.ip) ||
          isZeroTime times.created || times.created + loginLifetime ≠ times.expires ||
          times.seen < times.created || times.expires < times.seen || maxUtc < now + clockSkew ||
          now + clockSkew < times.created) = false := by
      simp only [Bool.or_eq_false_iff, decide_eq_false_iff_not, not_not, List.contains_eq_mem,
        Bool.not_eq_false', Bool.and_eq_false_iff, not_lt]
      constructor
      · rintro ⟨⟨times', hv⟩, hnew⟩
        cases htimes.symm.trans hv.read
        obtain ⟨h, hh, hhlen⟩ := hv.hash
        obtain ⟨i, hi, hilen⟩ := hv.id
        cases hhash.symm.trans hh
        cases hid.symm.trans hi
        exact ⟨⟨⟨⟨⟨⟨⟨⟨⟨⟨hhlen, hilen⟩, hnew⟩, hv.browser⟩, hv.ip⟩, hv.zero⟩, hv.expires.symm⟩,
          hv.seen.1⟩, hv.seen.2⟩, hv.skew.2⟩, hv.skew.1⟩
      · rintro ⟨⟨⟨⟨⟨⟨⟨⟨⟨⟨hhlen, hilen⟩, hnew⟩, hbrowser⟩, hip⟩, hzero⟩, hexpires⟩, hseen⟩, hseen'⟩,
          hskew⟩, hskew'⟩
        exact ⟨⟨times, ⟨hash, hhash, hhlen⟩, ⟨id, hid, hilen⟩, htimes, hbrowser, hip, hzero,
          hexpires.symm, ⟨hseen, hseen'⟩, hskew', hskew⟩, hnew⟩
    rw [← and_assoc, hvalid]
    unfold scanRow
    simp only [hhash, hid, htimes]
    -- the row is refused
    split
    · rename_i hrefused
      rw [hrefused]
      simp
    -- the row is accepted: it is dropped, or kept if there is room
    · rename_i haccepted
      rw [Bool.not_eq_true] at haccepted
      rw [haccepted, eq_self, true_and]
      -- a row of an account that is gone is dropped
      cases haccount : accounts.get? row.username with
      | none =>
        have hkept : kept C parseTime now accounts row = false := by simp [kept, haccount]
        simp [hkept, Scan.next, eq_comm]
      | some account =>
        obtain ⟨profile, credentials⟩ := account
        have hkept : kept C parseTime now accounts row = !(row.profile ≠ profile ||
            row.credentialFingerprint ≠ credentials.fingerprint C || times.expires ≤ now) := by
          unfold kept
          rw [haccount, htimes, Bool.eq_iff_iff]
          simp only [Option.any_some, Bool.and_eq_true, beq_iff_eq, decide_eq_true_eq,
            Bool.not_eq_true', Bool.or_eq_false_iff, decide_eq_false_iff_not, not_not, not_le]
        have hcount : Scan.count { acc with ids := acc.ids ++ [row.id] } row = acc.count row := rfl
        dsimp only
        split
        · rename_i hdropped
          rw [hdropped] at hkept
          simp [hkept, Scan.next, eq_comm]
        · rename_i hfresh
          rw [Bool.not_eq_true] at hfresh
          rw [hfresh] at hkept
          rw [hcount, hkept, Scan.next, hkept, htoken]
          -- a row that is kept needs room and a token of its own
          split
          · rename_i hfull
            simp only [Bool.or_eq_true, decide_eq_true_eq, List.contains_eq_mem] at hfull
            constructor
            · intro h
              cases h
            · rintro ⟨hroom, -⟩
              obtain ⟨hlt, hnew⟩ := hroom rfl
              rcases hfull with hfull | hfull
              · omega
              · exact absurd hfull hnew
          · rename_i hroom
            simp only [Bool.or_eq_true, decide_eq_true_eq, List.contains_eq_mem, not_or] at hroom
            constructor
            · intro h
              exact ⟨fun _ => ⟨by omega, hroom.2⟩, (Except.ok.inj h).symm⟩
            · rintro ⟨-, rfl⟩
              rfl

/-- The rows that are kept. -/
def keptRows (C : Crypto) (parseTime : String → Option ℤ) (now : ℤ) (accounts : Owners)
    (rows : List PersistedSession) : List PersistedSession :=
  rows.filter (kept C parseTime now accounts)

/-- A file with these rows is accepted after what the loop has seen. -/
structure RowsValid (C : Crypto) (parseTime : String → Option ℤ) (now : ℤ) (accounts : Owners)
    (acc : Scan) (rows : List PersistedSession) : Prop where
  valid : ∀ row ∈ rows, ∃ times, RowValid parseTime now row times
  ids : (acc.ids ++ rows.map PersistedSession.id).Nodup
  tokens : (acc.tokens ++ (keptRows C parseTime now accounts rows).map PersistedSession.token).Nodup
  room : ∀ username profile, (acc.retained ++ keptRows C parseTime now accounts rows).countP
    (fun r => r.username == username && r.profile == profile) ≤ maxSessionsPerAccount

/-- What the loop has seen in the end. -/
def Scan.after (C : Crypto) (parseTime : String → Option ℤ) (now : ℤ) (accounts : Owners)
    (acc : Scan) (rows : List PersistedSession) : Scan where
  ids := acc.ids ++ rows.map PersistedSession.id
  tokens := acc.tokens ++ (keptRows C parseTime now accounts rows).map PersistedSession.token
  retained := acc.retained ++ keptRows C parseTime now accounts rows
  dirty := acc.dirty || rows.any fun row => !kept C parseTime now accounts row

theorem Scan.after_cons (acc : Scan) (row : PersistedSession) (rows : List PersistedSession) :
    acc.after C parseTime now accounts (row :: rows)
      = (acc.next C parseTime now accounts row).after C parseTime now accounts rows := by
  unfold Scan.after Scan.next keptRows
  cases hkept : kept C parseTime now accounts row with
  | true => simp [hkept]
  | false => simp [hkept]

/-- Several rows are accepted if the first is and the rest is accepted after it. -/
theorem RowsValid.cons_iff {acc : Scan} {row : PersistedSession} {rows : List PersistedSession} :
    RowsValid C parseTime now accounts acc (row :: rows) ↔
      ((∃ times, RowValid parseTime now row times) ∧ row.id ∉ acc.ids ∧
        (kept C parseTime now accounts row = true →
          acc.count row < maxSessionsPerAccount ∧ row.token ∉ acc.tokens)) ∧
      RowsValid C parseTime now accounts (acc.next C parseTime now accounts row) rows := by
  -- what is asked of the ids, the tokens and the room is the same before and after the row
  have hafter : acc.after C parseTime now accounts (row :: rows) = _ := acc.after_cons row rows
  have hids := congrArg Scan.ids hafter
  have htokens := congrArg Scan.tokens hafter
  have hretained := congrArg Scan.retained hafter
  dsimp only [Scan.after] at hids htokens hretained
  constructor
  · intro h
    refine ⟨⟨h.valid row List.mem_cons_self, fun hmem => ?_, fun hkept => ⟨?_, fun hmem => ?_⟩⟩,
      fun r hr => h.valid r (List.mem_cons_of_mem _ hr), hids ▸ h.ids, htokens ▸ h.tokens,
      fun username profile => hretained ▸ h.room username profile⟩
    · exact (List.nodup_append.mp h.ids).2.2 _ hmem _ List.mem_cons_self rfl
    · have hroom := h.room row.username row.profile
      unfold keptRows at hroom
      rw [List.filter_cons_of_pos hkept, List.countP_append, List.countP_cons_of_pos (by simp)]
        at hroom
      unfold Scan.count
      omega
    · have hnodup := h.tokens
      unfold keptRows at hnodup
      rw [List.filter_cons_of_pos hkept] at hnodup
      exact (List.nodup_append.mp hnodup).2.2 _ hmem _ List.mem_cons_self rfl
  · rintro ⟨⟨hvalid, -, -⟩, h⟩
    refine ⟨fun r hr => ?_, hids ▸ h.ids, htokens ▸ h.tokens,
      fun username profile => hretained ▸ h.room username profile⟩
    rcases List.mem_cons.mp hr with rfl | hr
    · exact hvalid
    · exact h.valid r hr

/-- What the loop has seen stays valid. -/
theorem RowsValid.next {acc : Scan} {row : PersistedSession}
    (h : RowsValid C parseTime now accounts acc []) (hnew : row.id ∉ acc.ids)
    (hkept : kept C parseTime now accounts row = true →
      acc.count row < maxSessionsPerAccount ∧ row.token ∉ acc.tokens) :
    RowsValid C parseTime now accounts (acc.next C parseTime now accounts row) [] := by
  obtain ⟨-, hids, htokens, hroom⟩ := h
  rw [List.map_nil, List.append_nil] at hids
  rw [keptRows, List.filter_nil, List.map_nil, List.append_nil] at htokens
  have hids' : (acc.ids ++ [row.id]).Nodup :=
    List.nodup_append.mpr ⟨hids, List.nodup_singleton _, fun a ha b hb hab =>
      hnew (List.mem_singleton.mp hb ▸ hab ▸ ha)⟩
  unfold Scan.next
  split
  · rename_i hyes
    obtain ⟨hlt, hfresh⟩ := hkept hyes
    refine ⟨fun _ hr => absurd hr List.not_mem_nil, ?_, ?_, fun username profile => ?_⟩
    · rw [List.map_nil, List.append_nil]
      exact hids'
    · rw [keptRows, List.filter_nil, List.map_nil, List.append_nil]
      exact List.nodup_append.mpr ⟨htokens, List.nodup_singleton _, fun a ha b hb hab =>
        hfresh (List.mem_singleton.mp hb ▸ hab ▸ ha)⟩
    · have hle := hroom username profile
      rw [keptRows, List.filter_nil, List.append_nil] at hle ⊢
      rw [List.countP_append, List.countP_singleton]
      split
      · rename_i hsame
        rw [Bool.and_eq_true, beq_iff_eq, beq_iff_eq] at hsame
        rw [← hsame.1, ← hsame.2]
        exact hlt
      · exact hle
  · refine ⟨fun _ hr => absurd hr List.not_mem_nil, ?_, ?_, hroom⟩
    · rw [List.map_nil, List.append_nil]
      exact hids'
    · rw [keptRows, List.filter_nil, List.map_nil, List.append_nil]
      exact htokens

/-- The loop over the rows. -/
theorem scanRows_ok {rows : List PersistedSession} {acc acc' : Scan}
    (h : RowsValid C parseTime now accounts acc []) :
    rows.foldlM (scanRow C parseTime now accounts) acc = .ok acc' ↔
      RowsValid C parseTime now accounts acc rows ∧
        acc' = acc.after C parseTime now accounts rows := by
  induction rows generalizing acc with
  | nil =>
    have hsame : acc.after C parseTime now accounts [] = acc := by simp [Scan.after, keptRows]
    rw [List.foldlM_nil, hsame]
    constructor
    · intro heq
      exact ⟨h, (Except.ok.inj heq).symm⟩
    · rintro ⟨-, rfl⟩
      rfl
  | cons row rows ih =>
    rw [List.foldlM_cons, RowsValid.cons_iff, Scan.after_cons]
    constructor
    · intro heq
      cases hrow : scanRow C parseTime now accounts acc row with
      | error message => rw [hrow] at heq; cases heq
      | ok mid =>
        obtain ⟨hvalid, hnew, hkept, rfl⟩ := scanRow_ok.mp hrow
        rw [hrow] at heq
        obtain ⟨hrest, hacc⟩ := (ih (h.next hnew hkept)).mp heq
        exact ⟨⟨⟨hvalid, hnew, hkept⟩, hrest⟩, hacc⟩
    · rintro ⟨⟨⟨hvalid, hnew, hkept⟩, hrest⟩, rfl⟩
      rw [scanRow_ok.mpr ⟨hvalid, hnew, hkept, rfl⟩]
      exact (ih (h.next hnew hkept)).mpr ⟨hrest, rfl⟩

/-- **Which files are accepted**, and what is kept of them. -/
theorem validateSessionFile_ok {file : PersistedSessionFile} {v : ValidatedSessions} :
    validateSessionFile C parseTime now accounts file = .ok v ↔
      file.version = sessionFileVersion ∧
      RowsValid C parseTime now accounts ⟨[], [], [], false⟩ (file.sessions.getD []) ∧
      v = ⟨keptRows C parseTime now accounts (file.sessions.getD []),
        (file.sessions.getD []).any fun row => !kept C parseTime now accounts row⟩ := by
  have hstart : RowsValid C parseTime now accounts ⟨[], [], [], false⟩ [] :=
    ⟨fun _ h => absurd h List.not_mem_nil, List.nodup_nil, List.nodup_nil,
      fun _ _ => Nat.zero_le _⟩
  unfold validateSessionFile
  split
  · rename_i hversion
    constructor
    · intro h
      cases h
    · rintro ⟨heq, -⟩
      exact absurd heq hversion
  · rename_i hversion
    rw [not_not] at hversion
    have hloop : ∀ acc', (file.sessions.getD []).foldlM (scanRow C parseTime now accounts)
        ⟨[], [], [], false⟩ = .ok acc' ↔ _ := fun _ => scanRows_ok hstart
    cases hscan : (file.sessions.getD []).foldlM (scanRow C parseTime now accounts)
        ⟨[], [], [], false⟩ with
    | error message =>
      constructor
      · intro h
        cases h
      · rintro ⟨-, hvalid, -⟩
        cases hscan.symm.trans ((hloop _).mpr ⟨hvalid, rfl⟩)
    | ok acc =>
      obtain ⟨hvalid, rfl⟩ := (hloop acc).mp hscan
      constructor
      · intro h
        exact ⟨hversion, hvalid, (Except.ok.inj h).symm⟩
      · rintro ⟨-, -, rfl⟩
        rfl

end Hmux.Auth
