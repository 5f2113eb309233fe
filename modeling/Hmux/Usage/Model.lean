import Hmux.Model.F64

namespace Hmux.Usage

open Lib Pb

/-!
# Usage snapshots as the model has them

The types of `hmux-usage` that cross the transports, the texts they may hold, and the JSON form
that their attributes give them.
-/

/-- `MAX_ACCOUNTS`. -/
def maxAccounts : ℕ := 128

/-! ### Texts

The functions of the standard library that clean texts, on characters. -/

/-- `char::is_whitespace`. -/
def isWhitespace (c : Char) : Bool :=
  (9 ≤ c.val && c.val ≤ 13) || c.val = 0x20 || c.val = 0x85 || c.val = 0xA0 || c.val = 0x1680 ||
    (0x2000 ≤ c.val && c.val ≤ 0x200A) || c.val = 0x2028 || c.val = 0x2029 || c.val = 0x202F ||
    c.val = 0x205F || c.val = 0x3000

/-- `char::is_control`. -/
def isControl (c : Char) : Bool := c.val ≤ 0x1F || (0x7F ≤ c.val && c.val ≤ 0x9F)

/-- `str::trim`. -/
def trim (s : List Char) : List Char :=
  ((s.dropWhile isWhitespace).reverse.dropWhile isWhitespace).reverse

/-- `str::trim`, of a string. -/
def trimmed (s : String) : String := String.ofList (trim s.toList)

/-- A text that starts and ends with a character that is not white space. -/
theorem trim_eq_self {s : List Char} (hhead : ∀ c ∈ s.head?, isWhitespace c = false)
    (hlast : ∀ c ∈ s.getLast?, isWhitespace c = false) : trim s = s := by
  have hdrop : ∀ l : List Char, (∀ c ∈ l.head?, isWhitespace c = false) →
      l.dropWhile isWhitespace = l := by
    intro l hl
    cases l with
    | nil => rfl
    | cons c l => rw [List.dropWhile_cons_of_neg (by rw [hl c rfl]; exact Bool.false_ne_true)]
  unfold trim
  rw [hdrop s hhead, hdrop s.reverse, List.reverse_reverse]
  intro c hc
  rw [List.head?_reverse] at hc
  exact hlast c hc

/-- A text without white space. -/
theorem trim_free {s : List Char} (h : ∀ c ∈ s, isWhitespace c = false) : trim s = s :=
  trim_eq_self (fun c hc => h c (List.mem_of_mem_head? hc))
    fun c hc => h c (List.mem_of_getLast? hc)

/-- White space at the end makes no difference. -/
theorem trim_concat {s : List Char} {c : Char} (h : isWhitespace c = true) :
    trim (s ++ [c]) = trim s := by
  unfold trim
  rw [List.dropWhile_append]
  split
  · next hempty =>
    rw [List.isEmpty_iff.mp hempty, List.dropWhile_cons_of_pos h]
    rfl
  · rw [List.reverse_append, List.reverse_singleton, List.singleton_append,
      List.dropWhile_cons_of_pos h]

/-- `char::to_ascii_lowercase`. -/
def toAsciiLowercase (c : Char) : Char := if 'A' ≤ c ∧ c ≤ 'Z' then Char.ofNat (c.toNat + 32) else c

/-- `replace(pattern, "")`; `skip` characters of a match are left to be dropped. -/
def removeAll (pattern : List Char) : ℕ → List Char → List Char
  | _, [] => []
  | skip + 1, _ :: s => removeAll pattern skip s
  | 0, c :: s =>
    if pattern.isPrefixOf (c :: s) then removeAll pattern (pattern.length - 1) s
    else c :: removeAll pattern 0 s

/-- `normalize_plan`. -/
def normalizePlan (raw : String) : String :=
  let value := removeAll "chatgpt-".toList 0 (removeAll "chatgpt_".toList 0
    ((trim raw.toList).map toAsciiLowercase))
  let value := String.ofList value
  if ["free", "go", "plus", "pro", "prolite", "team", "business", "enterprise",
    "edu"].contains value
  then value else ""

/-- `safe_label`. -/
def safeLabel (raw : String) : String :=
  let value := trim raw.toList
  if 256 < (Hmux.bytes (String.ofList value)).length ||
      value.any (fun c => isControl c || (0x202A ≤ c.val && c.val ≤ 0x202E) ||
        (0x2066 ≤ c.val && c.val ≤ 0x2069)) then ""
  else String.ofList value

/-- `valid_quota_weighting`. -/
def validQuotaWeighting (raw : String) : Bool :=
  ["", "reported_capacity", "plan_estimate", "upstream"].contains raw

/-! ### Types

A snapshot is what is shown of one provider; a source is a snapshot within one. -/

/-- `usage::Provider`. -/
inductive Provider
  | claude | codex
  deriving DecidableEq

/-- `Window`. -/
structure Window where
  usedPct : F64
  remainingSeconds : Int64
  resetsAt : Option String
  deriving DecidableEq, Inhabited

/-- `AccountWindow`. -/
structure AccountWindow where
  usedPct : F64
  resetsAt : Option String
  deriving DecidableEq, Inhabited

/-- `Account`. -/
structure Account where
  number : Int64
  email : String
  displayName : String
  active : Bool
  status : String
  fiveHour : Option AccountWindow
  sevenDay : Option AccountWindow
  tokensPerHour : Option F64
  totalTokens : Option Int64
  lastRefreshAt : Option String
  quotaObservedAt : Option String
  planType : String
  deriving DecidableEq, Inhabited

/-- `Status`. -/
structure Status where
  quotaWeighting : String
  state : String
  dataSource : String
  quotaSource : String
  stale : Bool
  quotaObservedAt : Option String
  retryAt : Option String
  deriving DecidableEq, Inhabited

/-- `Snapshot`; the sources are in the order of their names. -/
structure Snapshot where
  schema : Int64
  seq : Int64
  generatedAtUtc : String
  provider : Provider
  planType : String
  burnRatePerMin : F64
  burnState : String
  todayTotalTokens : Int64
  todaySessions : Int64
  rolling5h : Window
  weekly : Window
  rolling5hObserved : Bool
  weeklyObserved : Bool
  status : Status
  accounts : List Account
  accountsUpdatedAt : Option String
  sources : List (String × Snapshot)

/-! ### JSON forms

The codecs, with the defaults of the attributes. -/

/-- `Provider`: the name of the variant, or an object with that name. -/
def Provider.codec : Codec Provider where
  write
    | .claude => .str "claude"
    | .codex => .str "codex"
  read
    | .str "claude" => some .claude
    | .str "codex" => some .codex
    | .obj [("claude", .null)] => some .claude
    | .obj [("codex", .null)] => some .codex
    | _ => none

section

variable (ofInt : ℤ → UInt64)

/-- The fields of `Window`. -/
def Window.fields : Fields Window :=
  Fields.map
    (Fields.and (.defaulted "used_pct" (F64.codec ofInt) ⟨0⟩) <|
     Fields.and (.number "remaining_seconds") <|
     .defaulted "resets_at" (Codec.string).option none)
    (fun (usedPct, remainingSeconds, resetsAt) => ⟨usedPct, remainingSeconds, resetsAt⟩)
    (fun m => (m.usedPct, m.remainingSeconds, m.resetsAt))

/-- `Window`. -/
def Window.codec : Codec Window := .object (Window.fields ofInt)

/-- The fields of `AccountWindow`. -/
def AccountWindow.fields : Fields AccountWindow :=
  Fields.map
    (Fields.and (.defaulted "used_pct" (F64.codec ofInt) ⟨0⟩) <|
     .defaulted "resets_at" (Codec.string).option none)
    (fun (usedPct, resetsAt) => ⟨usedPct, resetsAt⟩) (fun m => (m.usedPct, m.resetsAt))

/-- `AccountWindow`. -/
def AccountWindow.codec : Codec AccountWindow := .object (AccountWindow.fields ofInt)

/-- The fields of `Account`. -/
def Account.fields : Fields Account :=
  Fields.map
    (Fields.and (.number "number") <| Fields.and (.text "email") <|
     Fields.and (.omitEmpty "display_name") <| Fields.and (.flag "active") <|
     Fields.and (.text "status") <|
     Fields.and (.defaulted "five_hour" (AccountWindow.codec ofInt).option none) <|
     Fields.and (.defaulted "seven_day" (AccountWindow.codec ofInt).option none) <|
     Fields.and (.omitNone "tokens_per_hour" (F64.codec ofInt)) <|
     Fields.and (.omitNone "total_tokens" .int64) <|
     Fields.and (.omitNone "last_refresh_at" .string) <|
     Fields.and (.omitNone "quota_observed_at" .string) <| .omitEmpty "plan_type")
    (fun (number, email, displayName, active, status, fiveHour, sevenDay, tokensPerHour,
      totalTokens, lastRefreshAt, quotaObservedAt, planType) => ⟨number, email, displayName,
      active, status, fiveHour, sevenDay, tokensPerHour, totalTokens, lastRefreshAt,
      quotaObservedAt, planType⟩)
    (fun m => (m.number, m.email, m.displayName, m.active, m.status, m.fiveHour, m.sevenDay,
      m.tokensPerHour, m.totalTokens, m.lastRefreshAt, m.quotaObservedAt, m.planType))

/-- `Account`. -/
def Account.codec : Codec Account := .object (Account.fields ofInt)

end

/-- The fields of `Status`. -/
def Status.fields : Fields Status :=
  Fields.map
    (Fields.and (.omitEmpty "quota_weighting") <| Fields.and (.text "state") <|
     Fields.and (.text "data_source") <| Fields.and (.text "quota_source") <|
     Fields.and (.flag "stale") <| Fields.and (.omitNone "quota_observed_at" .string) <|
     .omitNone "retry_at" .string)
    (fun (quotaWeighting, state, dataSource, quotaSource, stale, quotaObservedAt, retryAt) =>
      ⟨quotaWeighting, state, dataSource, quotaSource, stale, quotaObservedAt, retryAt⟩)
    (fun m => (m.quotaWeighting, m.state, m.dataSource, m.quotaSource, m.stale,
      m.quotaObservedAt, m.retryAt))

/-- `Status`. -/
def Status.codec : Codec Status := .object Status.fields

/-! ### Reading back

What is written of a snapshot's parts is read as they were. -/

section

variable {ofInt : ℤ → UInt64}

theorem Provider.codec_reads (p : Provider) : Provider.codec.Reads p := by
  cases p <;> rfl

theorem string_option_reads (x : Option String) : Codec.string.option.Reads x :=
  Codec.option_reads (fun _ => by simp) Codec.string_reads x

theorem int64_option_reads (x : Option Int64) : Codec.int64.option.Reads x :=
  Codec.option_reads (fun _ => by simp) Codec.int64_reads x

theorem Window.codec_reads {w : Window} (h : w.usedPct.isFinite = true) :
    (Window.codec ofInt).Reads w := by
  unfold Window.codec
  rw [Codec.object_reads (by
    show ["used_pct", "remaining_seconds", "resets_at"].Nodup
    decide)]
  refine Fields.map_reads rfl ?_
  simp [string_option_reads, (F64.codec_reads h).2]

theorem AccountWindow.codec_reads {w : AccountWindow} (h : w.usedPct.isFinite = true) :
    (AccountWindow.codec ofInt).Reads w := by
  unfold AccountWindow.codec
  rw [Codec.object_reads (by
    show ["used_pct", "resets_at"].Nodup
    decide)]
  refine Fields.map_reads rfl ?_
  simp [string_option_reads, (F64.codec_reads h).2]

theorem AccountWindow.option_reads {x : Option AccountWindow}
    (h : ∀ w, x = some w → w.usedPct.isFinite = true) :
    (AccountWindow.codec ofInt).option.Reads x := by
  cases x with
  | none => exact Codec.option_reads_none
  | some w =>
    exact (Codec.option_reads_some w).mpr ⟨Json.noConfusion, AccountWindow.codec_reads (h w rfl)⟩

/-- An account whose doubles are finite is read back. -/
theorem Account.codec_reads {a : Account}
    (h5 : ∀ w, a.fiveHour = some w → w.usedPct.isFinite = true)
    (h7 : ∀ w, a.sevenDay = some w → w.usedPct.isFinite = true)
    (ht : ∀ x, a.tokensPerHour = some x → x.isFinite = true) : (Account.codec ofInt).Reads a := by
  unfold Account.codec
  rw [Codec.object_reads (by
    show ["number", "email", "display_name", "active", "status", "five_hour", "seven_day",
      "tokens_per_hour", "total_tokens", "last_refresh_at", "quota_observed_at",
      "plan_type"].Nodup
    decide)]
  refine Fields.map_reads rfl ?_
  simp [string_option_reads, int64_option_reads, AccountWindow.option_reads h5,
    AccountWindow.option_reads h7, F64.option_reads ht]

@[simp] theorem Status.codec_reads (s : Status) : Status.codec.Reads s := by
  unfold Status.codec
  rw [Codec.object_reads (by decide)]
  refine Fields.map_reads rfl ?_
  simp [string_option_reads]

end

end Hmux.Usage
