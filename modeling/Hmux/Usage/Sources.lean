import Hmux.Model.SafeText
import Hmux.Model.Session
import Hmux.Usage.Quota
import Mathlib.Algebra.Order.Field.Basic
import Mathlib.Data.Rat.Floor

namespace Hmux.Usage

open Lib Pb

/-!
# The optional usage sources

What Home makes of the output of external tools: `cswap::parse_command`,
`codex_accounts::parse_account_export`, `codex_pool::parse_fleet` and `codex_lb::parse_usage`, and
`sources::claude_swap`, which turns the accounts of the first one into a snapshot.

A double that was read is finite and is a rational number; the parsers calculate with these, and
`ofRat` is the double nearest to a result.  `parseTime` stands for `chrono`'s RFC 3339 parser, which
may return an instant inside a leap second.
-/

/-- The rational number a finite double is. -/
def toRat (x : F64) : ℚ :=
  let exponent : ℕ := x.bits.toNat / 2 ^ 52 % 2048
  let fraction : ℕ := x.bits.toNat % 2 ^ 52
  let significand : ℕ := if exponent = 0 then fraction else fraction + 2 ^ 52
  let magnitude : ℚ := significand * 2 ^ (((Max.max exponent 1 : ℕ) : ℤ) - 1075)
  if 2 ^ 63 ≤ x.bits.toNat then -magnitude else magnitude

/-- The number of a double that is finite. -/
def finite (x : F64) : Option ℚ := if x.isFinite then some (toRat x) else none

/-- `clamp(0.0, 1.0)`. -/
def clamp (q : ℚ) : ℚ := if q < 0 then 0 else if 1 < q then 1 else q

/-! ### Texts and times

What the parsers share: numbers in texts, times in several forms, and rows that must not repeat a
number. -/

/-- `to_ascii_lowercase`. -/
def lowercase (s : String) : String := String.ofList (s.toList.map toAsciiLowercase)

/-- `eq_ignore_ascii_case`. -/
def eqIgnoreAsciiCase (s t : String) : Bool := lowercase s == lowercase t

/-- `parse::<i64>`: a sign, digits, and no overflow. -/
def parseI64 (s : String) : Option Int64 :=
  let (sign, digits) : ℤ × List Char :=
    match s.toList with
    | '-' :: digits => (-1, digits)
    | '+' :: digits => (1, digits)
    | digits => (1, digits)
  let value := sign * (digits.foldl (fun n c => n * 10 + (c.toNat - 48)) 0 : ℕ)
  if digits ≠ [] ∧ digits.all Char.isDigit ∧ TimeDelta.fits value then some (Int64.ofInt value)
  else none

/-- `format_time` of an instant that may lie in a leap second. -/
def formatDateTime (t : DateTime) : String :=
  String.ofList (Civil.yearText (Civil.ofDay t.day).year ++ '-' :: Civil.fields (Civil.timeShape 3)
    [(Civil.ofDay t.day).month, (Civil.ofDay t.day).day, t.secs / 3600, t.secs / 60 % 60,
      t.secs % 60 + t.frac / 1000000000, t.frac % 1000000000 / 1000000])

/-- `timestamp_opt(secs, 0).single()`: an instant of the years that `chrono` has. -/
def timestampOpt (secs : Int64) : Option DateTime :=
  if -8334601228800 ≤ secs.toInt ∧ secs.toInt ≤ 8210266876799 then
    some (.ofNanos (secs.toInt * 1000000000))
  else none

/-- So many minutes in nanoseconds. -/
def minutes (n : ℤ) : ℤ := seconds (n * 60)

/-- `remaining`. -/
def remaining (reset : Option DateTime) (now : ℤ) : Int64 :=
  match reset with
  | none => 0
  | some t => Int64.ofInt (Max.max (t.signedDurationSince (.ofNanos now)).numSeconds 0)

section

variable (parseTime : String → Option DateTime)

/-- The `timestamp` of `codex_accounts.rs` and the `reset` of `codex_lb.rs`: a time, or a positive
    number of seconds. -/
def timestamp (raw : Option String) : Option DateTime :=
  raw.bind fun raw =>
    if trimmed raw = "" then none
    else
      match parseTime (trimmed raw) with
      | some t => some t
      | none =>
        match parseI64 (trimmed raw) with
        | some v => if 0 < v then timestampOpt v else none
        | none => none

end

/-- The loops of `parse_command` and `parse_account_export`: every row has a positive number that
    no row before has; `seen` has these. -/
def distinctRows {ρ α : Type} (number : ρ → Int64) (parse : ρ → Except Error α) :
    List Int64 → List ρ → Except Error (List α)
  | _, [] => .ok []
  | seen, row :: rest =>
    if number row ≤ 0 ∨ number row ∈ seen then .error .invalid
    else do
      let a ← parse row
      let as ← distinctRows number parse (number row :: seen) rest
      return a :: as

/-! ### `cswap list --json`

The output of the command is read as a whole, and each account is cleaned on its own. -/

namespace Cswap

/-- `MAX_COMMAND_BYTES`. -/
def maxCommandBytes : ℕ := 8 * 1024 * 1024

/-- `MAX_LAST_GOOD_AGE`. -/
def maxLastGoodAge : ℤ := minutes 30

/-- `MAX_FUTURE_SKEW`. -/
def maxFutureSkew : ℤ := minutes 5

/-- `RawWindow`. -/
structure RawWindow where
  pct : Option F64
  resetsAt : Option String

/-- `RawUsage`. -/
structure RawUsage where
  fiveHour : Option RawWindow
  sevenDay : Option RawWindow

/-- `RawAccount`. -/
structure RawAccount where
  number : Int64
  email : Option String
  «alias» : Option String
  active : Option Bool
  usageStatus : Option String
  usage : Option RawUsage
  usageFetchedAt : Option String
  usageAgeSeconds : Option F64
  lastGoodUsage : Option RawUsage
  lastGoodFetchedAt : Option String
  lastGoodAgeSeconds : Option F64

/-- `List`. -/
structure CommandList where
  schemaVersion : Int64
  activeAccountNumber : Option Int64
  accounts : List RawAccount

/-- `Parsed`. -/
structure Parsed where
  accounts : List Account
  updatedAt : Option String

section

variable (ofInt : ℤ → UInt64)

/-- `RawWindow` as JSON. -/
def RawWindow.codec : Codec RawWindow :=
  .openObject <| Fields.map
    (Fields.and (.optional "pct" (F64.codec ofInt)) <| .optional "resetsAt" .string)
    (fun (pct, resetsAt) => ⟨pct, resetsAt⟩) (fun v => (v.pct, v.resetsAt))

/-- `RawUsage` as JSON. -/
def RawUsage.codec : Codec RawUsage :=
  .openObject <| Fields.map
    (Fields.and (.optional "fiveHour" (RawWindow.codec ofInt)) <|
     .optional "sevenDay" (RawWindow.codec ofInt))
    (fun (fiveHour, sevenDay) => ⟨fiveHour, sevenDay⟩) (fun v => (v.fiveHour, v.sevenDay))

/-- `RawAccount` as JSON. -/
def RawAccount.codec : Codec RawAccount :=
  .openObject <| Fields.map
    (Fields.and (.required "number" .int64) <| Fields.and (.optional "email" .string) <|
     Fields.and (.optional "alias" .string) <| Fields.and (.optional "active" .bool) <|
     Fields.and (.optional "usageStatus" .string) <|
     Fields.and (.optional "usage" (RawUsage.codec ofInt)) <|
     Fields.and (.optional "usageFetchedAt" .string) <|
     Fields.and (.optional "usageAgeSeconds" (F64.codec ofInt)) <|
     Fields.and (.optional "lastGoodUsage" (RawUsage.codec ofInt)) <|
     Fields.and (.optional "lastGoodFetchedAt" .string) <|
     .optional "lastGoodAgeSeconds" (F64.codec ofInt))
    (fun (number, email, «alias», active, usageStatus, usage, usageFetchedAt, usageAgeSeconds,
      lastGoodUsage, lastGoodFetchedAt, lastGoodAgeSeconds) => ⟨number, email, «alias», active,
      usageStatus, usage, usageFetchedAt, usageAgeSeconds, lastGoodUsage, lastGoodFetchedAt,
      lastGoodAgeSeconds⟩)
    (fun v => (v.number, v.email, v.«alias», v.active, v.usageStatus, v.usage, v.usageFetchedAt,
      v.usageAgeSeconds, v.lastGoodUsage, v.lastGoodFetchedAt, v.lastGoodAgeSeconds))

/-- `List` as JSON. -/
def CommandList.codec : Codec CommandList :=
  .openObject <| Fields.map
    (Fields.and (.required "schemaVersion" .int64) <|
     Fields.and (.optional "activeAccountNumber" .int64) <|
     .required "accounts" ((RawAccount.codec ofInt).bounded maxAccounts))
    (fun (schemaVersion, activeAccountNumber, accounts) =>
      ⟨schemaVersion, activeAccountNumber, accounts⟩)
    (fun v => (v.schemaVersion, v.activeAccountNumber, v.accounts))

end

section

variable (S : Serde) (parseTime : String → Option DateTime) (ofRat : ℚ → F64)

/-- `normalize_window`. -/
def normalizeWindow (window : Option RawWindow) : Except Error (Option AccountWindow) :=
  match window with
  | none => .ok none
  | some window =>
    let pct := window.pct.getD ⟨0⟩
    if !pct.isFinite then .error .invalid
    else
      .ok (some
        { usedPct := ofRat (clamp (toRat pct / 100))
          resetsAt := (window.resetsAt.bind fun raw => parseTime (trimmed raw)).map
            formatDateTime })

/-- The age of a measurement as an instant. -/
def agedTime (age : Option F64) (now : ℤ) : Except Error (Option DateTime) :=
  match age with
  | none => .ok none
  | some age =>
    if age.isFinite ∧ 0 ≤ toRat age ∧ toRat age ≤ 1000000000 then
      .ok (some (.ofNanos (now - ⌊toRat age * 1000000000⌋)))
    else .error .invalid

/-- `measurement_time`. -/
def measurementTime (raw : Option String) (age : Option F64) (now : ℤ) :
    Except Error (Option DateTime) := do
  let aged ← agedTime age now
  match (raw.map trimmed).filter (· ≠ "") with
  | none => return aged
  | some raw =>
    let observed ← okOr (parseTime raw) .invalid
    if (DateTime.ofNanos (now + maxFutureSkew)).before observed then .error .invalid
    else
      let observed := observed.min (.ofNanos now)
      return some (match aged with
        | none => observed
        | some aged => aged.min observed)

/-- `clear_stale`. -/
def clearStale (account : Account) : Account :=
  { account with
    fiveHour := none
    sevenDay := none
    status := if account.status = "ok" then "unavailable" else account.status }

/-- The status of an account: the trimmed text of the command. -/
def status (raw : RawAccount) : String :=
  let status := trimmed (raw.usageStatus.getD "")
  if status = "" then "unavailable" else status

/-- The name of an account without one. -/
def numbered (number : ℤ) : String := "Account " ++ toString number

/-- The account of a turn of the loop of `parse_command`, before it is checked for its age. -/
def rawAccount (raw : RawAccount) (fiveHour sevenDay : Option AccountWindow)
    (observed : Option DateTime) : Account :=
  let label := safeLabel (raw.email.getD "")
  { number := raw.number
    email := if label = "" then numbered raw.number.toInt else label
    displayName := safeLabel (raw.«alias».getD "")
    active := raw.active.getD false
    status := status raw
    fiveHour, sevenDay
    tokensPerHour := none
    totalTokens := none
    lastRefreshAt := observed.map formatDateTime
    quotaObservedAt := none
    planType := "" }

/-- An old measurement, or usage that was measured at no known time, is not shown. -/
def isStale (observed : Option DateTime) (hasUsage : Bool) (now : ℤ) : Bool :=
  match observed with
  | some at' => maxLastGoodAge < (DateTime.ofNanos now).since at'
  | none => hasUsage

/-- One turn of the loop of `parse_command`: an account, and when it was measured. -/
def parseAccount (raw : RawAccount) (now : ℤ) : Except Error (Account × Option DateTime) := do
  let useLastGood := raw.usage.isNone && raw.lastGoodUsage.isSome
  let usage := if useLastGood then raw.lastGoodUsage else raw.usage
  let fetchedAt := if useLastGood then raw.lastGoodFetchedAt else raw.usageFetchedAt
  let age := if useLastGood then raw.lastGoodAgeSeconds else raw.usageAgeSeconds
  let fiveHour ← normalizeWindow parseTime ofRat (usage.bind RawUsage.fiveHour)
  let sevenDay ← normalizeWindow parseTime ofRat (usage.bind RawUsage.sevenDay)
  let observed ← measurementTime parseTime fetchedAt age now
  let account := rawAccount raw fiveHour sevenDay observed
  return (if isStale observed usage.isSome now then clearStale account else account, observed)

/-- The loop of `parse_command`. -/
def parseAccounts (now : ℤ) (rows : List RawAccount) :
    Except Error (List (Account × Option DateTime)) :=
  distinctRows RawAccount.number (fun raw => parseAccount parseTime ofRat raw now) [] rows

/-- The newest of the measurements. -/
def newest (times : List (Option DateTime)) : Option DateTime :=
  times.foldl (fun newest t => match newest, t with
    | some n, some t => some (n.max t)
    | none, t => t
    | n, none => n) none

/-- Only one account may be active, the one that the command names. -/
def bindActive (activeAccountNumber : Option Int64) (accounts : List Account) : List Account :=
  let activeCount := (accounts.filter Account.active).length
  let activeNumber := ((accounts.find? Account.active).map Account.number).getD 0
  if 1 < activeCount ∨ activeAccountNumber.any (· ≠ activeNumber) then
    accounts.map fun a => { a with active := false }
  else accounts

/-- The command output as `serde_json` reads it. -/
def readList (raw : List UInt8) : Option CommandList :=
  (S.fromSlice raw).bind (CommandList.codec S.ofInt).read

/-- `parse_command`. -/
def parseCommand (raw : List UInt8) (now : ℤ) : Except Error Parsed :=
  if maxCommandBytes < raw.length then .error .limit
  else
    match readList S raw with
    | none => .error .invalid
    | some list =>
      if list.schemaVersion ≠ 1 then .error .invalid
      else do
        let parsed ← parseAccounts parseTime ofRat now list.accounts
        return { accounts := bindActive list.activeAccountNumber (parsed.map Prod.fst)
                 updatedAt := (newest (parsed.map Prod.snd)).map formatDateTime }

end

end Cswap

/-! ### `sources::claude_swap`

The snapshot takes its windows from the active account. -/

/-- `copy_activity`. -/
def copyActivity (target activity : Snapshot) : Snapshot :=
  { target with
    burnRatePerMin := activity.burnRatePerMin
    burnState := activity.burnState
    todayTotalTokens := activity.todayTotalTokens
    todaySessions := activity.todaySessions
    status := { target.status with
      dataSource :=
        if activity.status.dataSource = "api+jsonl" ∨ activity.status.dataSource = "jsonl_only" then
          "api+jsonl"
        else target.status.dataSource } }

section

variable (parseTime : String → Option DateTime)

/-- The window of the active account as one of the snapshot. -/
def summaryWindow (w : AccountWindow) (now : ℤ) : Window :=
  { usedPct := w.usedPct
    remainingSeconds := remaining (w.resetsAt.bind parseTime) now
    resetsAt := w.resetsAt }

/-- What the active account gives to the snapshot. -/
def bindAccount (s : Snapshot) (a : Account) (now : ℤ) : Snapshot :=
  let s := match a.fiveHour with
    | none => s
    | some w => { s with rolling5h := summaryWindow parseTime w now, rolling5hObserved := true }
  let s := match a.sevenDay with
    | none => s
    | some w => { s with weekly := summaryWindow parseTime w now, weeklyObserved := true }
  { s with
    status := { s.status with
      quotaObservedAt := a.lastRefreshAt
      stale := a.status ≠ "ok"
      state := if a.status = "ok" ∨ a.status = "stale" then "ok" else s.status.state } }

/-- `claude_swap`. -/
def claudeSwap (cli : Snapshot) (parsed : Cswap.Parsed) (now : ℤ) : Except Error Snapshot :=
  if cli.provider ≠ .claude then .error .invalid
  else do
    validate parseTime cli
    let s := Snapshot.degraded .claude cli.seq now "networkError"
    let s := { s with
      status := { s.status with quotaSource := "claude_swap" }
      accounts := parsed.accounts
      accountsUpdatedAt := parsed.updatedAt }
    let s := copyActivity s cli
    if 1 < (s.accounts.filter Account.active).length then .error .invalid
    else
      let s := match s.accounts.find? Account.active with
        | none => s
        | some a => bindAccount parseTime s a now
      validate parseTime s
      return s

end

/-! ### The account export of codex-lb

Every field of a row is optional, and a row is cleaned on its own. -/

namespace CodexAccounts

/-- `MAX_BODY`. -/
def maxBody : ℕ := 8 * 1024 * 1024

/-- `Row`. -/
structure Row where
  number : Int64
  accountId : Option String
  email : Option String
  «alias» : Option String
  displayName : Option String
  status : Option String
  fiveHourPct : Option F64
  sevenDayPct : Option F64
  resetAtPrimary : Option String
  resetAtSecondary : Option String
  totalTokens : Option Int64
  tokensPerHour : Option F64
  lastRefreshAt : Option String
  plan : Option String
  planType : Option String
  planTypeSnake : Option String

/-- `Export`. -/
structure Export where
  schemaVersion : Int64
  accountsUpdatedAt : Option String
  accounts : Option (List Row)

/-- `AccountExport`. -/
structure AccountExport where
  accounts : List Account
  updatedAt : Option String
  sourceTime : DateTime

section

variable (ofInt : ℤ → UInt64)

/-- An optional text. -/
def text (key : String) : Fields (Option String) := .defaulted key Codec.string.option none

/-- An optional double. -/
def double (key : String) : Fields (Option F64) := .defaulted key (F64.codec ofInt).option none

/-- `Row` as JSON. -/
def Row.codec : Codec Row :=
  .openObject <| Fields.map
    (Fields.and (.number "number") <| Fields.and (text "accountId") <| Fields.and (text "email") <|
     Fields.and (text "alias") <| Fields.and (text "displayName") <| Fields.and (text "status") <|
     Fields.and (double ofInt "fiveHourPct") <| Fields.and (double ofInt "sevenDayPct") <|
     Fields.and (text "resetAtPrimary") <| Fields.and (text "resetAtSecondary") <|
     Fields.and (.defaulted "totalTokens" Codec.int64.option none) <|
     Fields.and (double ofInt "tokensPerHour") <| Fields.and (text "lastRefreshAt") <|
     Fields.and (text "plan") <| Fields.and (text "planType") <| text "plan_type")
    (fun (number, accountId, email, «alias», displayName, status, fiveHourPct, sevenDayPct,
      resetAtPrimary, resetAtSecondary, totalTokens, tokensPerHour, lastRefreshAt, plan, planType,
      planTypeSnake) => ⟨number, accountId, email, «alias», displayName, status, fiveHourPct,
      sevenDayPct, resetAtPrimary, resetAtSecondary, totalTokens, tokensPerHour, lastRefreshAt,
      plan, planType, planTypeSnake⟩)
    (fun v => (v.number, v.accountId, v.email, v.«alias», v.displayName, v.status, v.fiveHourPct,
      v.sevenDayPct, v.resetAtPrimary, v.resetAtSecondary, v.totalTokens, v.tokensPerHour,
      v.lastRefreshAt, v.plan, v.planType, v.planTypeSnake))

/-- `Export` as JSON. -/
def Export.codec : Codec Export :=
  .openObject <| Fields.map
    (Fields.and (.number "schemaVersion") <| Fields.and (text "accountsUpdatedAt") <|
     .defaulted "accounts" ((Row.codec ofInt).bounded maxAccounts).option none)
    (fun (schemaVersion, accountsUpdatedAt, accounts) =>
      ⟨schemaVersion, accountsUpdatedAt, accounts⟩)
    (fun v => (v.schemaVersion, v.accountsUpdatedAt, v.accounts))

end

/-- `normalize_status`. -/
def normalizeStatus (raw : String) : String :=
  let token := String.ofList ((lowercase (trimmed raw)).toList.map fun c =>
    if c = '-' ∨ c = ' ' then '_' else c)
  let normalized :=
    if ["active", "enabled", "healthy", "logged_in", "ok"].contains token then "ok"
    else if ["disabled", "inactive", "suspended"].contains token then "paused"
    else if ["auth_required", "auth_expired", "login_required", "reauth", "reauthrequired",
      "token_expired", "unauthorized"].contains token then "reauth_required"
    else if token = "ratelimited" then "rate_limited"
    else if token = "" then "unavailable"
    else token
  if 64 < len normalized ∨ !(Hmux.bytes normalized).all (fun b =>
      isAsciiLowercase b || isAsciiDigit b || b == 95) then "unavailable"
  else normalized

section

variable (S : Serde) (parseTime : String → Option DateTime) (ofRat : ℚ → F64)

/-- `account_window`. -/
def accountWindow (pct : Option F64) (resetAt : Option String) :
    Except Error (Option AccountWindow) :=
  match pct with
  | none => .ok none
  | some pct =>
    if !pct.isFinite then .error .invalid
    else
      .ok (some
        { usedPct := ofRat (clamp (toRat pct))
          resetsAt := (timestamp parseTime resetAt).map formatDateTime })

/-- The plan of a row: the first of its plans that says something. -/
def plan (row : Row) : String :=
  (([row.plan, row.planType, row.planTypeSnake].filterMap id).find? fun v => trimmed v ≠ "").getD ""

/-- The label of a row. -/
def label (row : Row) : String :=
  let «alias» := row.«alias».getD ""
  if trimmed «alias» = "" then Cswap.numbered row.number.toInt else safeLabel «alias»

/-- The account of a row. -/
def rowAccount (row : Row) (fiveHour sevenDay : Option AccountWindow) : Account :=
  let status := normalizeStatus (row.status.getD "")
  { number := row.number
    email := ""
    displayName := label row
    active := status = "ok"
    status, fiveHour, sevenDay
    tokensPerHour := row.tokensPerHour
    totalTokens := row.totalTokens
    lastRefreshAt := (timestamp parseTime row.lastRefreshAt).map formatDateTime
    planType := normalizePlan (plan row)
    quotaObservedAt := none }

/-- One turn of the loop of `parse_account_export`. -/
def parseRow (row : Row) : Except Error Account := do
  require (row.tokensPerHour.all fun v => v.isFinite) .invalid
  let fiveHour ← accountWindow parseTime ofRat row.fiveHourPct row.resetAtPrimary
  let sevenDay ← accountWindow parseTime ofRat row.sevenDayPct row.resetAtSecondary
  return rowAccount parseTime row fiveHour sevenDay

/-- The loop of `parse_account_export`. -/
def parseRows (rows : List Row) : Except Error (List Account) :=
  distinctRows Row.number (parseRow parseTime ofRat) [] rows

/-- The first byte that is not white space is a brace. -/
def startsObject (raw : List UInt8) : Bool := raw.find? (!isAsciiWhitespace ·) == some 123

/-- The export as `serde_json` reads it. -/
def readExport (raw : List UInt8) : Option Export :=
  (S.fromSlice raw).bind (Export.codec S.ofInt).read

/-- `parse_account_export`. -/
def parseAccountExport (raw : List UInt8) (now : ℤ) (mtime : DateTime) :
    Except Error AccountExport :=
  if maxBody < raw.length then .error .limit
  else if !startsObject raw then .error .invalid
  else
    match readExport S raw with
    | none => .error .invalid
    | some source =>
      if source.schemaVersion ≠ 1 then .error .invalid
      else do
        let rows ← okOr source.accounts .invalid
        let accounts ← parseRows parseTime ofRat rows
        let sourceTime := (timestamp parseTime source.accountsUpdatedAt).getD mtime
        let sourceTime :=
          if (DateTime.ofNanos (now + minutes 5)).before sourceTime then .ofNanos now
            else sourceTime
        return {
          accounts
          updatedAt := if accounts.isEmpty then none else some (formatDateTime sourceTime)
          sourceTime }

end

end CodexAccounts

/-! ### The fleet of an API key

The rows are added up with the capacities of their plans as weights, and a sum is shown as a
window. -/

namespace CodexPool

/-- `FleetWindow`. -/
structure FleetWindow where
  remainingPercent : Option F64
  resetAt : Option String
  windowMinutes : Option Int64
  deriving Inhabited

/-- `Row`. -/
structure Row where
  accountId : String
  «alias» : Option String
  displayName : String
  email : String
  planType : String
  status : String
  primary : FleetWindow
  secondary : FleetWindow
  usageRefreshedAt : Option String
  capacityCreditsPrimary : Option F64
  capacityCreditsSecondary : Option F64
  remainingCreditsPrimary : Option F64
  remainingCreditsSecondary : Option F64

section

variable (ofInt : ℤ → UInt64)

open CodexAccounts (text double)

/-- `FleetWindow` as JSON. -/
def FleetWindow.codec : Codec FleetWindow :=
  .openObject <| Fields.map
    (Fields.and (double ofInt "remainingPercent") <| Fields.and (text "resetAt") <|
     .defaulted "windowMinutes" Codec.int64.option none)
    (fun (remainingPercent, resetAt, windowMinutes) => ⟨remainingPercent, resetAt, windowMinutes⟩)
    (fun v => (v.remainingPercent, v.resetAt, v.windowMinutes))

/-- `Row` as JSON. -/
def Row.codec : Codec Row :=
  .openObject <| Fields.map
    (Fields.and (.text "accountId") <| Fields.and (text "alias") <|
     Fields.and (.text "displayName") <| Fields.and (.text "email") <|
     Fields.and (.text "planType") <| Fields.and (.text "status") <|
     Fields.and (.defaulted "primary" (FleetWindow.codec ofInt) default) <|
     Fields.and (.defaulted "secondary" (FleetWindow.codec ofInt) default) <|
     Fields.and (text "usageRefreshedAt") <| Fields.and (double ofInt "capacityCreditsPrimary") <|
     Fields.and (double ofInt "capacityCreditsSecondary") <|
     Fields.and (double ofInt "remainingCreditsPrimary") <|
     double ofInt "remainingCreditsSecondary")
    (fun (accountId, «alias», displayName, email, planType, status, primary, secondary,
      usageRefreshedAt, capacityCreditsPrimary, capacityCreditsSecondary, remainingCreditsPrimary,
      remainingCreditsSecondary) => ⟨accountId, «alias», displayName, email, planType, status,
      primary, secondary, usageRefreshedAt, capacityCreditsPrimary, capacityCreditsSecondary,
      remainingCreditsPrimary, remainingCreditsSecondary⟩)
    (fun v => (v.accountId, v.«alias», v.displayName, v.email, v.planType, v.status, v.primary,
      v.secondary, v.usageRefreshedAt, v.capacityCreditsPrimary, v.capacityCreditsSecondary,
      v.remainingCreditsPrimary, v.remainingCreditsSecondary))

/-- `Fleet` as JSON: its accounts. -/
def fleetCodec : Codec (List Row) :=
  .openObject (.required "accounts" ((Row.codec ofInt).bounded maxAccounts))

end

/-- `plan_capacity`. -/
def planCapacity (plan : String) (weekly : Bool) : Option ℚ :=
  let scaled := fun primary : ℚ => some (if weekly then primary * (168 / 5) else primary)
  if ["plus", "team", "business", "edu"].contains plan then scaled 225
  else if ["pro", "enterprise"].contains plan then scaled 1500
  else if plan = "prolite" then scaled 1125
  else if plan = "free" ∧ weekly then some 1134
  else none

/-- `Measure`. -/
structure Measure where
  used : ℚ
  capacity : ℚ
  reset : Option DateTime
  estimated : Bool

/-- `Aggregate`. -/
structure Aggregate where
  used : ℚ
  capacity : ℚ
  reset : Option DateTime
  missing : Bool
  estimated : Bool

/-- `Aggregate::default`. -/
def Aggregate.empty : Aggregate := ⟨0, 0, none, false, false⟩

/-- `Aggregate::add`. -/
def Aggregate.add (a : Aggregate) : Option Measure → Aggregate
  | none => { a with missing := true }
  | some m =>
    { a with
      used := a.used + m.used * m.capacity
      capacity := a.capacity + m.capacity
      estimated := a.estimated || m.estimated
      reset := match m.reset with
        | none => a.reset
        | some at' => some (match a.reset with
          | none => at'
          | some old => old.min at') }

section

variable (S : Serde) (parseTime : String → Option DateTime) (ofRat : ℚ → F64)

/-- The time at which a window ends: the text must be one, and one that is to come. -/
def resetTime (raw : Option String) (now : ℤ) : Option (Option DateTime) :=
  match raw with
  | none => some none
  | some raw =>
    match parseTime raw with
    | none => none
    | some at' => if (DateTime.ofNanos now).before at' then some (some at') else none

/-- What is left of a window, as a fraction. -/
def fraction (window : FleetWindow) (capacity : ℚ) (credits : Option F64) (estimated : Bool) :
    Option ℚ :=
  match credits, estimated with
  | some left, false => (finite left).map fun left => left / capacity
  | _, _ => (window.remainingPercent.bind finite).map fun percent => percent / 100

/-- `measure`. -/
def measure (window : FleetWindow) (capacity credits : Option F64) (plan : String) (weekly : Bool)
    (now : ℤ) : Option Measure := do
  if window.windowMinutes ≠ some (if weekly then 10080 else 300) then none
  else
    let reset ← resetTime parseTime window.resetAt now
    let estimated := capacity.isNone
    let capacity ← match capacity with
      | some capacity => finite capacity
      | none => planCapacity plan weekly
    if capacity ≤ 0 ∨ 1000000000000 < capacity then none
    else
      let fraction ← fraction window capacity credits estimated
      if fraction < 0 ∨ 1 < fraction then none
      else return ⟨1 - fraction, capacity, reset, estimated⟩

/-- `Aggregate::window`. -/
def Aggregate.window (a : Aggregate) (now : ℤ) : Option Window :=
  if !a.missing ∧ 0 < a.capacity then
    some
      { usedPct := ofRat (clamp (a.used / a.capacity))
        remainingSeconds := remaining a.reset now
        resetsAt := a.reset.map formatDateTime }
  else none

/-- The account of a row that is shown. -/
def publicWindow (m : Option Measure) : Option AccountWindow :=
  m.map fun m => { usedPct := ofRat m.used, resetsAt := m.reset.map formatDateTime }

/-- The name of a row that is shown. -/
def displayName (row : Row) (index : ℕ) : String :=
  let name := match row.«alias» with
    | some «alias» => some «alias»
    | none =>
      if !row.displayName.toList.contains '@' ∧ !eqIgnoreAsciiCase row.displayName row.email then
        some row.displayName
      else none
  match (name.map safeLabel).filter (· ≠ "") with
  | some label => label
  | none => Cswap.numbered (index + 1)

/-- What the loop of `parse_fleet` has gathered. -/
structure Gathered where
  weekly : Aggregate
  primary : Aggregate
  oldest : DateTime
  accounts : List Account

/-- One turn of the loop of `parse_fleet`, after the check of the identity. -/
def parseRow (now : ℤ) (g : Gathered) (index : ℕ) (row : Row) : Gathered :=
  let plan := normalizePlan row.planType
  let eligible := ["active", "rate_limited", "quota_exceeded"].contains row.status
  let excluded := ["paused", "disabled", "deactivated", "reauth_required"].contains row.status
  let observed := row.usageRefreshedAt.bind parseTime
  let fresh := observed.any fun at' =>
    (DateTime.ofNanos now).since at' < minutes 30 && at'.since (.ofNanos now) ≤ minutes 1
  let week :=
    if fresh then
      measure parseTime row.secondary row.capacityCreditsSecondary
        row.remainingCreditsSecondary plan
        true now
    else none
  let short :=
    if fresh then
      measure parseTime row.primary row.capacityCreditsPrimary row.remainingCreditsPrimary
        plan false
        now
    else none
  let account : Account :=
    { number := Int64.ofNat (index + 1)
      email := ""
      displayName := displayName row index
      active := eligible
      status :=
        if row.status = "active" then "ok"
        else if eligible || excluded then row.status
        else "unavailable"
      fiveHour := publicWindow ofRat short
      sevenDay := publicWindow ofRat week
      tokensPerHour := none
      totalTokens := none
      lastRefreshAt := none
      quotaObservedAt := observed.map formatDateTime
      planType := plan }
  let accounts := g.accounts ++ [account]
  if eligible then
    { weekly := g.weekly.add week
      primary := g.primary.add short
      oldest := match observed with
        | none => g.oldest
        | some at' => g.oldest.min at'
      accounts }
  else if !excluded then
    { g with
      weekly := { g.weekly with missing := true }
      primary := { g.primary with missing := true }
      accounts }
  else { g with accounts }

/-- The loop of `parse_fleet`. -/
def parseRows (now : ℤ) : List String → ℕ → Gathered → List Row → Except Error Gathered
  | _, _, g, [] => .ok g
  | seen, index, g, row :: rest =>
    if row.accountId = "" ∨ 256 < len row.accountId ∨ row.accountId ∈ seen then .error .invalid
    else parseRows now (row.accountId :: seen) (index + 1)
      (parseRow parseTime ofRat now g index row) rest

/-- The snapshot of what was gathered. -/
def summary (seq : Int64) (now : ℤ) (g : Gathered) : Snapshot :=
  let snap := Snapshot.degraded .codex seq now "ok"
  let weekly := g.weekly.window ofRat now
  let primary := g.primary.window ofRat now
  let stale := weekly.isNone && primary.isNone
  { snap with
    weekly := weekly.getD default
    weeklyObserved := weekly.isSome
    rolling5h := primary.getD default
    rolling5hObserved := primary.isSome
    accounts := g.accounts
    accountsUpdatedAt := some (formatTime now)
    status := { snap.status with
      quotaSource := "codex_lb"
      quotaWeighting :=
        if stale then ""
        else if (weekly.isSome && g.weekly.estimated) || (primary.isSome &&
          g.primary.estimated) then
          "plan_estimate"
        else "reported_capacity"
      stale
      quotaObservedAt := if stale then none else some (formatDateTime g.oldest) } }

/-- `parse_fleet`. -/
def parseFleet (raw : List UInt8) (seq : Int64) (now : ℤ) : Except Error Snapshot :=
  if maxSnapshotBytes < raw.length then .error .limit
  else
    match (S.fromSlice raw).bind (fleetCodec S.ofInt).read with
    | none => .error .invalid
    | some rows => do
      let g ← parseRows parseTime ofRat now [] 0 ⟨.empty, .empty, .ofNanos now, []⟩ rows
      return summary ofRat seq now g

end

end CodexPool

/-! ### `/v1/usage` of codex-lb

Limits of several kinds, of which two windows are kept. -/

namespace CodexLb

/-- `MAX_BODY`. -/
def maxBody : ℕ := 1048576

/-- `MAX_LIMITS`. -/
def maxLimits : ℕ := 128

/-- `Limit`. -/
structure Limit where
  limitType : String
  limitWindow : String
  maxValue : F64
  currentValue : F64
  remainingValue : F64
  modelFilter : Option String
  resetAt : Option String
  source : String

/-- `Pool`. -/
structure Pool where
  primary : Option F64
  secondary : Option F64

/-- `Response`. -/
structure Response where
  upstreamLimits : Option (List Limit)
  accountPoolUsage : Option Pool

section

variable (ofInt : ℤ → UInt64)

open CodexAccounts (text double)

/-- `Limit` as JSON. -/
def Limit.codec : Codec Limit :=
  .openObject <| Fields.map
    (Fields.and (.text "limit_type") <| Fields.and (.text "limit_window") <|
     Fields.and (.defaulted "max_value" (F64.codec ofInt) ⟨0⟩) <|
     Fields.and (.defaulted "current_value" (F64.codec ofInt) ⟨0⟩) <|
     Fields.and (.defaulted "remaining_value" (F64.codec ofInt) ⟨0⟩) <|
     Fields.and (text "model_filter") <| Fields.and (text "reset_at") <| .text "source")
    (fun (limitType, limitWindow, maxValue, currentValue, remainingValue, modelFilter, resetAt,
      source) => ⟨limitType, limitWindow, maxValue, currentValue, remainingValue, modelFilter,
      resetAt, source⟩)
    (fun v => (v.limitType, v.limitWindow, v.maxValue, v.currentValue, v.remainingValue,
      v.modelFilter, v.resetAt, v.source))

/-- `Pool` as JSON. -/
def Pool.codec : Codec Pool :=
  .openObject <| Fields.map
    (Fields.and (double ofInt "primary") <| double ofInt "secondary")
    (fun (primary, secondary) => ⟨primary, secondary⟩) (fun v => (v.primary, v.secondary))

/-- `Response` as JSON. -/
def Response.codec : Codec Response :=
  .openObject <| Fields.map
    (Fields.and (.defaulted "upstream_limits"
      ((Limit.codec ofInt).bounded maxLimits).option none) <|
     .defaulted "account_pool_usage" (Pool.codec ofInt).option none)
    (fun (upstreamLimits, accountPoolUsage) => ⟨upstreamLimits, accountPoolUsage⟩)
    (fun v => (v.upstreamLimits, v.accountPoolUsage))

end

/-- The windows that are kept. -/
inductive Kind
  | fiveHour | sevenDay | other
  deriving DecidableEq

/-- `window`. -/
def windowKind (raw : String) : Kind :=
  if ["5h", "5hr", "5hrs", "5hour", "5hours", "primary"].contains raw then .fiveHour
  else if ["7d", "7day", "7days", "1w", "1week", "1weeks", "week", "weekly",
    "secondary"].contains raw
  then .sevenDay
  else .other

/-- `round`: to the nearest integer, halves away from zero. -/
def roundHalfAway (q : ℚ) : ℤ := if 0 ≤ q then ⌊q + 1 / 2⌋ else -⌊-q + 1 / 2⌋

/-- `num_milliseconds`: rounded towards zero. -/
def numMilliseconds (d : TimeDelta) : ℤ := d.numSeconds * 1000 + (d.subsecNanos).tdiv 1000000

/-- The seconds until a reset; `as i64` stops at the largest number. -/
def untilReset (reset : Option DateTime) (now : ℤ) : Int64 :=
  match reset with
  | none => 0
  | some t =>
    let millis := numMilliseconds (t.signedDurationSince (.ofNanos now))
    Int64.ofInt (Min.min (Max.max (roundHalfAway (millis / 1000)) 0) 9223372036854775807)

section

variable (S : Serde) (parseTime : String → Option DateTime) (ofRat : ℚ → F64)

/-- The values of a limit make sense. -/
def Limit.usable (l : Limit) : Bool :=
  trimmed l.limitWindow ≠ "" && l.maxValue.isFinite && l.currentValue.isFinite &&
    l.remainingValue.isFinite && 0 < toRat l.maxValue && 0 ≤ toRat l.currentValue &&
    toRat l.currentValue ≤ toRat l.maxValue && 0 ≤ toRat l.remainingValue &&
    toRat l.remainingValue ≤ toRat l.maxValue

/-- One turn of the loop of `parse_usage`, and whether a limit was seen. -/
def parseLimit (now : ℤ) (s : Snapshot × Bool) (l : Limit) : Except Error (Snapshot × Bool) := do
  if !eqIgnoreAsciiCase l.source "aggregate" ∨
    !eqIgnoreAsciiCase l.limitType "credits" then return s
  else
    require l.usable .invalid
    let resetAt := timestamp parseTime l.resetAt
    require (!(l.resetAt.any fun s => trimmed s ≠ "") || resetAt.isSome) .invalid
    let window : Window :=
      { usedPct := ofRat (clamp (toRat l.currentValue / toRat l.maxValue))
        remainingSeconds := untilReset resetAt now
        resetsAt := resetAt.map formatDateTime }
    match windowKind (lowercase (trimmed l.limitWindow)) with
    | .fiveHour => return ({ s.1 with rolling5h := window, rolling5hObserved := true }, true)
    | .sevenDay => return ({ s.1 with weekly := window, weeklyObserved := true }, true)
    | .other => return (s.1, true)

/-- A window of the pool. -/
def poolWindow (left : Option F64) : Except Error (Option Window) :=
  match left with
  | none => .ok none
  | some left =>
    if left.isFinite ∧ 0 ≤ toRat left ∧ toRat left ≤ 100 then
      .ok (some { usedPct := ofRat (clamp (1 - toRat left / 100)), remainingSeconds := 0,
                  resetsAt := none })
    else .error .invalid

/-- The pool of accounts takes the place of the limits, also when it has no window. -/
def parsePool (s : Snapshot × Bool) (pool : Option Pool) : Except Error (Snapshot × Bool) :=
  match pool with
  | none => .ok s
  | some pool => do
    let primary ← poolWindow ofRat pool.primary
    let secondary ← poolWindow ofRat pool.secondary
    return ({ s.1 with
      rolling5h := primary.getD default
      rolling5hObserved := primary.isSome
      weekly := secondary.getD default
      weeklyObserved := secondary.isSome }, primary.isSome || secondary.isSome)

/-- `parse_usage`. -/
def parseUsage (raw : List UInt8) (seq : Int64) (now : ℤ) : Except Error Snapshot :=
  if maxBody < raw.length then .error .limit
  else if !CodexAccounts.startsObject raw then .error .invalid
  else
    match (S.fromSlice raw).bind (Response.codec S.ofInt).read with
    | none => .error .invalid
    | some response => do
      let snapshot := Snapshot.degraded .codex seq now "ok"
      let snapshot := { snapshot with
        status := { snapshot.status with stale := false, quotaSource := "codex_lb" } }
      let s ← (response.upstreamLimits.getD []).foldlM (parseLimit parseTime ofRat now)
        (snapshot, false)
      let s ← parsePool ofRat s response.accountPoolUsage
      require s.2 .invalid
      return { s.1 with
        status := { s.1.status with quotaObservedAt := some (formatTime now) } }

end

end CodexLb

end Hmux.Usage
