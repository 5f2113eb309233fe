import Hmux.Lib.Json.Reader
import Hmux.Usage.QuotaPublish
import Hmux.Usage.Sources

namespace Hmux.Usage

open Lib Pb

/-!
# Whether what the optional sources say can be published

A snapshot is published only if it passes `transport::validate`.  Each parser cleans the fields it
takes over from the output of its tool; the lemmas here go through them one by one.

* `Cswap.parseCommand_spec`, `Cswap.claudeSwap_ok_iff` — an account of `cswap` passes every check
  but one: its status is not cut;
* `CodexAccounts.parseAccountExport_spec` — so does one of an export, whose token counts may be
  negative.
-/

/-! ### Texts

A label that was cleaned is clean, so the check that cleans it again finds it unchanged. -/

/-- A clean label stays as it is. -/
theorem safeLabel_safeLabel (raw : String) : safeLabel (safeLabel raw) = safeLabel raw := by
  unfold safeLabel
  dsimp only
  split
  · rfl
  · rename_i hclean
    rw [String.toList_ofList, trim_trim, if_neg hclean]

/-- A plan that was recognized is recognized again. -/
theorem normalizePlan_normalizePlan (raw : String) :
    normalizePlan (normalizePlan raw) = normalizePlan raw := by
  have hknown : normalizePlan raw = "" ∨ normalizePlan raw ∈
      ["free", "go", "plus", "pro", "prolite", "team", "business", "enterprise", "edu"] := by
    unfold normalizePlan
    dsimp only
    split
    · rename_i h
      exact .inr (List.contains_iff_mem.mp h)
    · exact .inl rfl
  simp only [List.mem_cons, List.not_mem_nil, or_false] at hknown
  rcases hknown with h | h | h | h | h | h | h | h | h | h <;> rw [h] <;> decide

/-- The decimal digits of a number. -/
theorem mem_repr {n : ℕ} {c : Char} (h : c ∈ n.repr.toList) :
    c ∈ ['0', '1', '2', '3', '4', '5', '6', '7', '8', '9'] := by
  rw [Nat.toList_repr] at h
  have hdigit := Nat.isDigit_of_mem_toDigits (by decide) (by decide) h
  simp only [Char.isDigit, Bool.and_eq_true, decide_eq_true_eq] at hdigit
  have hlow : 48 ≤ c.toNat := UInt32.le_iff_toNat_le.mp hdigit.1
  have hhigh : c.toNat ≤ 57 := UInt32.le_iff_toNat_le.mp hdigit.2
  rw [← Char.ofNat_toNat c]
  generalize c.toNat = k at hlow hhigh
  have hall : ∀ k : Fin 58, 48 ≤ k.val →
      Char.ofNat k ∈ ['0', '1', '2', '3', '4', '5', '6', '7', '8', '9'] := by decide
  exact hall ⟨k, by omega⟩ hlow

/-- **The name of an account without one** is a clean label. -/
theorem safeLabel_numbered {n : ℕ} (h : n < 10 ^ 19) :
    safeLabel (Cswap.numbered n) = Cswap.numbered n := by
  -- the text is ASCII letters and digits, without space at its ends
  have htext : (Cswap.numbered n).toList = "Account ".toList ++ n.repr.toList := by
    unfold Cswap.numbered
    rw [String.toList_append]
    rfl
  have hmem : ∀ c ∈ (Cswap.numbered n).toList, c ∈ "Account ".toList ∨
      c ∈ ['0', '1', '2', '3', '4', '5', '6', '7', '8', '9'] := by
    intro c hc
    rw [htext, List.mem_append] at hc
    exact hc.imp_right mem_repr
  have hchar : ∀ c ∈ (Cswap.numbered n).toList, c.utf8Size = 1 ∧ (isControl c ||
      (0x202A ≤ c.val && c.val ≤ 0x202E) || (0x2066 ≤ c.val && c.val ≤ 0x2069)) = false := by
    have hletters : ∀ c ∈ "Account ".toList, c.utf8Size = 1 ∧ (isControl c ||
      (0x202A ≤ c.val && c.val ≤ 0x202E) || (0x2066 ≤ c.val && c.val ≤ 0x2069)) = false :=
      forall_of_all (by decide)
    have hdigits : ∀ c ∈ ['0', '1', '2', '3', '4', '5', '6', '7', '8', '9'], c.utf8Size = 1 ∧
        (isControl c || (0x202A ≤ c.val && c.val ≤ 0x202E) ||
          (0x2066 ≤ c.val && c.val ≤ 0x2069)) = false :=
      forall_of_all (by decide)
    exact fun c hc => (hmem c hc).elim (hletters c) (hdigits c)
  have hne : n.repr.toList ≠ [] := by
    rw [Nat.toList_repr]
    exact Nat.toDigits_ne_nil
  have htrim : trim (Cswap.numbered n).toList = (Cswap.numbered n).toList := by
    refine trim_eq_self ?_ ?_
    · intro c hc
      rw [htext] at hc
      rw [← Option.some.inj (show some 'A' = some c from hc)]
      rfl
    · intro c hc
      rw [htext, List.getLast?_append_of_ne_nil _ hne] at hc
      have hdigit := mem_repr (List.mem_of_mem_getLast? hc)
      have hall : ∀ c ∈ ['0', '1', '2', '3', '4', '5', '6', '7', '8', '9'],
          isWhitespace c = false :=
        forall_of_all (by decide)
      exact hall c hdigit
  have hlen : (Hmux.bytes (Cswap.numbered n)).length ≤ 256 := by
    rw [length_bytes_of_ascii fun c hc => (hchar c hc).1, htext, List.length_append,
      Nat.toList_repr]
    have hdigits := (Nat.length_toDigits_le_iff (by decide) (by decide)).mpr h
    have hname : ("Account ".toList).length = 8 := by decide
    omega
  unfold safeLabel
  dsimp only
  rw [htrim, String.ofList_toList, if_neg]
  rw [Bool.or_eq_true, decide_eq_true_eq, List.any_eq_true]
  rintro (hlong | ⟨c, hc, hbad⟩)
  · omega
  · rw [(hchar c hc).2] at hbad
    cases hbad

/-! ### Times

Every time that is shown is one of a clock or was parsed, so its text has the length that is asked
for. -/

/-- The instant is one that `chrono` has. -/
def InRange (t : DateTime) : Prop := -96465292 ≤ t.day ∧ t.day ≤ 95026236

/-- `parse_from_rfc3339` returns instants that `chrono` has. -/
def ParsesInRange (parseTime : String → Option DateTime) : Prop :=
  ∀ raw t, parseTime raw = some t → InRange t

/-- The years 1970 to 9999. -/
def Current (now : ℤ) : Prop := 1970 ≤ (Civil.date now).year ∧ (Civil.date now).year ≤ 9999

/-- The clock is between 1970 and 9999. -/
theorem Current.range {now : ℤ} (h : Current now) :
    0 ≤ now ∧ now < 253402300800000000000 := by
  constructor
  · by_contra hneg
    have hyear := Civil.date_year_le (show now ≤ -1 by omega)
    rw [show (Civil.date (-1)).year = 1969 by decide] at hyear
    have := h.1
    omega
  · by_contra hlate
    have hyear := Civil.date_year_le (show 253402300800000000000 ≤ now by omega)
    rw [show (Civil.date 253402300800000000000).year = 10000 by decide] at hyear
    have := h.2
    omega

/-- The year of the clock has four digits. -/
theorem Current.fourDigitYear {now : ℤ} (h : Current now) : Civil.FourDigitYear now :=
  ⟨by have := h.1; omega, h.2⟩

/-- An instant between two others is in the range of `chrono`. -/
theorem inRange_ofNanos {n : ℤ} (hlow : -8334601228800000000000 ≤ n)
    (hhigh : n ≤ 8210266876799999999999) : InRange (.ofNanos n) := by
  unfold InRange DateTime.ofNanos
  dsimp only
  omega

/-- The earlier of two instants is in range. -/
theorem inRange_min {t u : DateTime} (ht : InRange t) (hu : InRange u) : InRange (t.min u) := by
  unfold DateTime.min
  split
  · exact hu
  · exact ht

/-- The later of two instants is in range. -/
theorem inRange_max {t u : DateTime} (ht : InRange t) (hu : InRange u) : InRange (t.max u) := by
  unfold DateTime.max
  split
  · exact ht
  · exact hu

/-- The text of an instant is short. -/
theorem len_formatDateTime {t : DateTime} (h : InRange t) : len (formatDateTime t) ≤ 128 := by
  have hyear : (Civil.yearText (Civil.ofDay t.day).year).length ≤ 7 := by
    have hlength := Civil.Instant.length_yearText ⟨t.day * Civil.nanosPerDay, by
      have := h.1; unfold Civil.nanosPerDay; omega, by
      have := h.2; unfold Civil.nanosPerDay; omega⟩
    have hday : t.day * Civil.nanosPerDay / Civil.nanosPerDay = t.day :=
      Int.mul_ediv_cancel _ (by decide)
    unfold Civil.date at hlength
    dsimp only at hlength
    rwa [hday] at hlength
  have hlength : (formatDateTime t).toList.length ≤ 27 := by
    unfold formatDateTime
    rw [String.toList_ofList]
    simp only [Civil.timeShape, Civil.fields, List.length_append, Civil.length_fixed,
      List.length_cons, List.length_nil]
    omega
  have hle := length_bytes_le (formatDateTime t)
  unfold len
  omega

/-- On a system clock both texts of an instant are the same. -/
theorem formatDateTime_ofNanos (n : ℤ) : formatDateTime (.ofNanos n) = formatTime n := by
  unfold formatDateTime formatTime Civil.rfc3339 Civil.timeFields Civil.date Civil.second
    Civil.nanosPerDay DateTime.ofNanos
  dsimp only
  have hfrac : (n % 1000000000).toNat / 1000000000 = 0 := by omega
  have hmod : (n % 1000000000).toNat % 1000000000 = (n % 1000000000).toNat := by omega
  rw [hfrac, hmod]
  rfl

/-- An instant in range has a text that is not too long. -/
theorem timestampLen_map {x : Option DateTime} (h : ∀ t ∈ x, InRange t) :
    timestampLen (x.map formatDateTime) = true := by
  cases x with
  | none => rfl
  | some t =>
    show decide (len (formatDateTime t) ≤ 128) = true
    rw [decide_eq_true_eq]
    exact len_formatDateTime (h t rfl)

/-- A difference of instants is no more than this many seconds. -/
theorem numSeconds_le {t : DateTime} {now : ℤ} (ht : InRange t) (hnow : Current now) :
    (t.signedDurationSince (.ofNanos now)).numSeconds < 9223372036854775807 := by
  obtain ⟨hlow, hhigh⟩ := hnow.range
  have hsince : t.since (.ofNanos now) ≤ 9000000000000000000000 := by
    have hsecs := t.secs_lt
    have hfrac := t.frac_lt
    have hday := ht.2
    have hofday : (DateTime.ofNanos now).day = now / (86400 * 1000000000) := rfl
    unfold DateTime.since
    dsimp only
    split
    · omega
    · split <;> omega
  unfold DateTime.signedDurationSince TimeDelta.numSeconds TimeDelta.nanoseconds
  dsimp only
  split <;> omega

/-- A number of 63 bits is kept. -/
theorem toInt_ofInt_of_range {n : ℤ} (h0 : 0 ≤ n) (h1 : n < 2 ^ 63) :
    (Int64.ofInt n).toInt = n := by
  rw [Int64.toInt_ofInt]
  have hsize : ((Int64.size : ℕ) : ℤ) = 2 ^ 64 := rfl
  exact Int.bmod_eq_of_le (by rw [hsize]; omega) (by rw [hsize]; omega)

/-- It stays non-negative as well. -/
theorem ofInt_nonneg {n : ℤ} (h0 : 0 ≤ n) (h1 : n < 2 ^ 63) : 0 ≤ Int64.ofInt n := by
  rw [Int64.le_iff_toInt_le, toInt_ofInt_of_range h0 h1]
  exact h0

/-- What remains is never negative. -/
theorem remaining_nonneg {reset : Option DateTime} {now : ℤ} (h : ∀ t ∈ reset, InRange t)
    (hnow : Current now) : 0 ≤ remaining reset now := by
  cases reset with
  | none => exact Int64.le_refl 0
  | some t =>
    have hle := numSeconds_le (h t rfl) hnow
    refine ofInt_nonneg (le_max_right _ _) (max_lt ?_ (by decide))
    omega

/-- No reset is in the past. -/
theorem untilReset_nonneg (reset : Option DateTime) (now : ℤ) :
    0 ≤ CodexLb.untilReset reset now := by
  cases reset with
  | none => exact Int64.le_refl 0
  | some t =>
    refine ofInt_nonneg (le_min (le_max_right _ _) (by decide)) ?_
    exact lt_of_le_of_lt (min_le_right _ _) (by decide)

/-! ### Windows

A ratio is clamped before it is rounded, and rounding stays between zero and one. -/

/-- The double nearest to a number between zero and one is between zero and one. -/
def RoundsUnit (ofRat : ℚ → F64) : Prop := ∀ q, 0 ≤ q → q ≤ 1 → ratio (ofRat q) = true

section

variable {ofRat : ℚ → F64} {parseTime : String → Option DateTime}

/-- What is clamped lies between zero and one. -/
theorem clamp_mem (q : ℚ) : 0 ≤ clamp q ∧ clamp q ≤ 1 := by
  unfold clamp
  split
  · exact ⟨le_refl 0, zero_le_one⟩
  · rename_i h0
    split
    · exact ⟨zero_le_one, le_refl 1⟩
    · rename_i h1
      exact ⟨not_lt.mp h0, not_lt.mp h1⟩

/-- What is clamped is a ratio after rounding. -/
theorem ratio_clamp (h : RoundsUnit ofRat) (q : ℚ) : ratio (ofRat (clamp q)) = true :=
  h _ (clamp_mem q).1 (clamp_mem q).2

/-- A time that was read is in range. -/
theorem timestamp_inRange (h : ParsesInRange parseTime) {raw : Option String} {t : DateTime}
    (ht : t ∈ timestamp parseTime raw) : InRange t := by
  unfold timestamp at ht
  obtain ⟨text, -, ht⟩ := Option.bind_eq_some_iff.mp ht
  split at ht
  · cases ht
  · cases hparse : parseTime (trimmed text) with
    | some u =>
      rw [hparse] at ht
      cases ht
      exact h _ _ hparse
    | none =>
      rw [hparse] at ht
      dsimp only at ht
      cases hnumber : parseI64 (trimmed text) with
      | none => rw [hnumber] at ht; cases ht
      | some v =>
        rw [hnumber] at ht
        dsimp only at ht
        split at ht
        · unfold timestampOpt at ht
          split at ht
          · rename_i hrange
            cases ht
            exact inRange_ofNanos (by omega) (by omega)
          · cases ht
        · cases ht

/-- A window is published when its ratio and its time are in order. -/
theorem accountWindow_some {w : AccountWindow} (hratio : ratio w.usedPct = true)
    (htime : timestampLen w.resetsAt = true) : accountWindow (some w) = true := by
  show (ratio w.usedPct && timestampLen w.resetsAt) = true
  rw [hratio, htime]
  rfl

/-- Every window of the command is published. -/
theorem normalizeWindow_ok (hunit : RoundsUnit ofRat) (hparse : ParsesInRange parseTime)
    {raw : Option Cswap.RawWindow} {w : Option AccountWindow}
    (h : Cswap.normalizeWindow parseTime ofRat raw = .ok w) : accountWindow w = true := by
  unfold Cswap.normalizeWindow at h
  cases raw with
  | none => cases h; rfl
  | some raw =>
    dsimp only at h
    split at h
    · cases h
    · cases h
      refine accountWindow_some (ratio_clamp hunit _) (timestampLen_map fun t ht => ?_)
      obtain ⟨text, -, ht⟩ := Option.bind_eq_some_iff.mp ht
      exact hparse _ _ ht

/-- Every window of the export is published. -/
theorem exportWindow_ok (hunit : RoundsUnit ofRat) (hparse : ParsesInRange parseTime)
    {pct : Option F64} {resetAt : Option String} {w : Option AccountWindow}
    (h : CodexAccounts.accountWindow parseTime ofRat pct resetAt = .ok w) :
    accountWindow w = true := by
  unfold CodexAccounts.accountWindow at h
  cases pct with
  | none => cases h; rfl
  | some pct =>
    dsimp only at h
    split at h
    · cases h
    · cases h
      exact accountWindow_some (ratio_clamp hunit _)
        (timestampLen_map fun t ht => timestamp_inRange hparse ht)

end

/-! ### Accounts

The checks of an account are split into those of the account alone and the one against the accounts
before it. -/

section

variable {parseTime : String → Option DateTime} {provider : Provider}

/-- An account on its own passes: every check but the one against the accounts before it. -/
def Alone (provider : Provider) (a : Account) : Prop := account provider [] a = true

/-- Accounts with distinct numbers that pass on their own pass together, and only these. -/
theorem accounts_iff {accounts : List Account} (hnodup : (accounts.map Account.number).Nodup) :
    (∀ p ∈ accounts.zipIdx, account provider (accounts.take p.2) p.1 = true) ↔
      ∀ a ∈ accounts, Alone provider a := by
  have hbefore : ∀ i (hi : i < accounts.length),
      (accounts.take i).any (fun prev => prev.number == accounts[i].number) = false := by
    intro i hi
    rw [List.any_eq_false]
    intro prev hprev
    obtain ⟨j, hj, rfl⟩ := List.mem_take_iff_getElem.mp hprev
    rw [beq_iff_eq]
    intro heq
    have hlt : j < accounts.length := by omega
    have hj' : j < (accounts.map Account.number).length := by rw [List.length_map]; exact hlt
    have hi' : i < (accounts.map Account.number).length := by rw [List.length_map]; exact hi
    have hinj : (accounts.map Account.number)[j] = (accounts.map Account.number)[i] ↔ j = i :=
      hnodup.getElem_inj_iff
    rw [List.getElem_map, List.getElem_map] at hinj
    have := hinj.mp heq
    omega
  have hsame : ∀ i (hi : i < accounts.length),
      account provider (accounts.take i) accounts[i] = account provider [] accounts[i] := by
    intro i hi
    unfold account
    rw [hbefore i hi]
    rfl
  constructor
  · intro h a ha
    obtain ⟨i, hi, rfl⟩ := List.getElem_of_mem ha
    have hp := h (accounts[i], i) (by simp [List.mem_zipIdx_iff_getElem?])
    rw [hsame i hi] at hp
    exact hp
  · rintro h ⟨a, i⟩ hp
    rw [List.mem_zipIdx_iff_getElem?] at hp
    dsimp only at hp ⊢
    obtain ⟨hi, rfl⟩ := List.getElem?_eq_some_iff.mp hp
    rw [hsame i hi]
    exact h _ (List.getElem_mem hi)

/-- What the check of an account asks for. -/
theorem alone_iff {a : Account} : Alone provider a ↔
    0 < a.number ∧ ¬(provider = .codex ∧ a.email ≠ "") ∧ a.email = safeLabel a.email ∧
      a.displayName = safeLabel a.displayName ∧ len a.status ≤ 64 ∧
      accountWindow a.fiveHour = true ∧ accountWindow a.sevenDay = true ∧
      (∀ n ∈ a.tokensPerHour, n.isFinite = true ∧ n.isNegative = false) ∧
      (∀ n ∈ a.totalTokens, 0 ≤ n) ∧ timestampLen a.lastRefreshAt = true ∧
      timestampLen a.quotaObservedAt = true ∧ a.planType = normalizePlan a.planType := by
  unfold Alone account
  simp only [List.any_nil, Bool.not_false, Bool.and_true, Bool.and_eq_true, decide_eq_true_eq,
    beq_iff_eq, Bool.and_eq_false_iff, beq_eq_false_iff_ne, bne_eq_false_iff_eq,
    Option.all_eq_true, Bool.not_eq_eq_eq_not, Bool.not_true, ne_eq, and_assoc, not_and, not_not,
    or_iff_not_imp_left, Option.mem_def]

end

/-! ### Snapshots

A snapshot without accounts that passes still passes with accounts that do. -/

/-- A snapshot without sources and without a retry time whose own fields can be published. -/
structure Publishable (s : Snapshot) : Prop where
  schema : s.schema = 1
  seq : 0 ≤ s.seq
  generated : s.generatedAtUtc ≠ "" ∧ len s.generatedAtUtc ≤ 128
  burnState : len s.burnState ≤ 32
  burnRate : s.burnRatePerMin.isFinite = true ∧ s.burnRatePerMin.isNegative = false
  tokens : 0 ≤ s.todayTotalTokens
  sessions : 0 ≤ s.todaySessions
  plan : s.planType = normalizePlan s.planType
  rolling : window s.rolling5h = true
  weekly : window s.weekly = true
  state : s.status.state ≠ "" ∧ len s.status.state ≤ 64
  weighting : validQuotaWeighting s.status.quotaWeighting = true
  dataSource : len s.status.dataSource ≤ 128
  quotaSource : len s.status.quotaSource ≤ 128
  observed : timestampLen s.status.quotaObservedAt = true
  retryAt : s.status.retryAt = none
  updated : timestampLen s.accountsUpdatedAt = true
  length : s.accounts.length ≤ maxAccounts
  sources : s.sources = []

section

variable {parseTime : String → Option DateTime} {s : Snapshot}

/-- Of such a snapshot the accounts decide. -/
theorem Publishable.validate_iff (h : Publishable s)
    (hnodup : (s.accounts.map Account.number).Nodup) :
    validate parseTime s = .ok () ↔ ∀ a ∈ s.accounts, Alone s.provider a := by
  have hfields : fields parseTime s = true := by
    unfold fields
    simp only [Bool.and_eq_true, decide_eq_true_eq, beq_iff_eq, bne_iff_ne, Bool.not_eq_true']
    refine ⟨⟨⟨⟨⟨⟨⟨⟨⟨⟨⟨⟨⟨⟨⟨⟨⟨⟨⟨⟨⟨h.schema, h.seq⟩, h.generated.1⟩, h.generated.2⟩, h.burnState⟩,
      h.burnRate.1⟩, h.burnRate.2⟩, h.tokens⟩, h.sessions⟩, h.plan⟩, h.rolling⟩, h.weekly⟩,
      h.state.1⟩, h.state.2⟩, h.weighting⟩, h.dataSource⟩, h.quotaSource⟩, h.observed⟩,
      retry_none h.retryAt⟩, h.updated⟩, h.length⟩, ?_⟩
    rw [h.sources]
    exact Nat.zero_le _
  unfold validate
  rw [checks_ok, h.sources, accounts_iff hnodup]
  exact ⟨fun hall => hall.2.2, fun hall => ⟨hfields, fun p hp => absurd hp List.not_mem_nil, hall⟩⟩

/-- The empty window is published. -/
theorem window_default : window default = true := by decide

/-- A snapshot that only says why there is no usage. -/
theorem publishable_degraded {provider : Provider} {seq : Int64} {now : ℤ} {state : String}
    (hseq : 0 ≤ seq) (hnow : Current now) (hstate : state ≠ "" ∧ len state ≤ 64) :
    Publishable (Snapshot.degraded provider seq now state) where
  schema := rfl
  seq := hseq
  generated := formatTime_len hnow.fourDigitYear
  burnState := show len "idle" ≤ 32 by decide
  burnRate := ⟨show F64.isFinite ⟨0⟩ = true by decide, show F64.isNegative ⟨0⟩ = false by decide⟩
  tokens := Int64.le_refl 0
  sessions := Int64.le_refl 0
  plan := show "" = normalizePlan "" by decide
  rolling := window_default
  weekly := window_default
  state := hstate
  weighting := show validQuotaWeighting "" = true by decide
  dataSource := show len "api_only" ≤ 128 by decide
  quotaSource := show len "none" ≤ 128 by decide
  observed := rfl
  retryAt := rfl
  updated := rfl
  length := Nat.zero_le _
  sources := rfl

/-- What `copy_activity` takes over from a snapshot that passed the checks. -/
theorem validate_activity (h : validate parseTime s = .ok ()) :
    0 ≤ s.seq ∧ len s.burnState ≤ 32 ∧
      (s.burnRatePerMin.isFinite = true ∧ s.burnRatePerMin.isNegative = false) ∧
      0 ≤ s.todayTotalTokens ∧ 0 ≤ s.todaySessions := by
  have hfields := (checks_ok.mp h).1
  unfold fields at hfields
  simp only [Bool.and_eq_true, decide_eq_true_eq, Bool.not_eq_true'] at hfields
  obtain ⟨⟨⟨⟨⟨⟨⟨⟨⟨⟨⟨⟨⟨⟨⟨⟨⟨⟨⟨⟨⟨-, hseq⟩, -⟩, -⟩, hburn⟩, hfinite⟩, hneg⟩, htokens⟩, hsessions⟩, -⟩,
    -⟩, -⟩, -⟩, -⟩, -⟩, -⟩, -⟩, -⟩, -⟩, -⟩, -⟩, -⟩ := hfields
  exact ⟨hseq, hburn, ⟨hfinite, hneg⟩, htokens, hsessions⟩

/-- A snapshot that passed still passes with other accounts if these pass. -/
theorem validate_replaced (h : validate parseTime s = .ok ()) {accounts : List Account}
    (hnodup : (accounts.map Account.number).Nodup) (hlength : accounts.length ≤ maxAccounts)
    {updatedAt : Option String} (hupdated : timestampLen updatedAt = true) :
    validate parseTime { s with accounts, accountsUpdatedAt := updatedAt } = .ok () ↔
      ∀ a ∈ accounts, Alone s.provider a := by
  obtain ⟨hfields, hsources, -⟩ := checks_ok.mp h
  have hreplaced : fields parseTime { s with accounts, accountsUpdatedAt := updatedAt } = true := by
    have hretry : retry parseTime { s with accounts, accountsUpdatedAt := updatedAt }
        = retry parseTime s := rfl
    unfold fields at hfields ⊢
    rw [hretry]
    simp only [Bool.and_eq_true, decide_eq_true_eq] at hfields ⊢
    obtain ⟨⟨⟨hbefore, -⟩, -⟩, hlast⟩ := hfields
    exact ⟨⟨⟨hbefore, hupdated⟩, hlength⟩, hlast⟩
  unfold validate
  rw [checks_ok, accounts_iff hnodup]
  exact ⟨fun hall => hall.2.2, fun hall => ⟨hreplaced, hsources, hall⟩⟩

end

/-- **Rows with numbers**: every row became one item, and the numbers are positive and distinct. -/
theorem distinctRows_spec {ρ α : Type} {number : ρ → Int64} {parse : ρ → Except Error α}
    (num : α → Int64) (hnum : ∀ row a, parse row = .ok a → num a = number row) {seen : List Int64}
    {rows : List ρ} {items : List α} (h : distinctRows number parse seen rows = .ok items) :
    items.map num = rows.map number ∧ (rows.map number).Nodup ∧
      (∀ row ∈ rows, (0 < number row ∧ number row ∉ seen) ∧ ∃ a ∈ items, parse row = .ok a) ∧
      ∀ a ∈ items, ∃ row ∈ rows, parse row = .ok a := by
  induction rows generalizing seen items with
  | nil =>
    rw [distinctRows] at h
    cases h
    exact ⟨rfl, List.nodup_nil, nofun, nofun⟩
  | cons row rows ih =>
    rw [distinctRows] at h
    split at h
    · cases h
    · rename_i hnumber
      obtain ⟨hpos, hseen⟩ := not_or.mp hnumber
      obtain ⟨a, ha, h⟩ := bind_ok h
      obtain ⟨rest, hrest, h⟩ := bind_ok h
      cases h
      obtain ⟨hmap, hnodup, hrows, hitems⟩ := ih hrest
      refine ⟨?_, ?_, fun other hother => ?_, fun b hb => ?_⟩
      · rw [List.map_cons, List.map_cons, hmap, hnum row a ha]
      · rw [List.map_cons, List.nodup_cons]
        refine ⟨fun hmem => ?_, hnodup⟩
        obtain ⟨other, hother, heq⟩ := List.mem_map.mp hmem
        exact (hrows other hother).1.2 (heq ▸ List.mem_cons_self)
      · rcases List.mem_cons.mp hother with rfl | hother
        · exact ⟨⟨Int64.not_le.mp hpos, hseen⟩, a, List.mem_cons_self, ha⟩
        · obtain ⟨⟨hlt, hfresh⟩, b, hb, hparse⟩ := hrows other hother
          exact ⟨⟨hlt, fun hmem => hfresh (List.mem_cons_of_mem _ hmem)⟩, b,
            List.mem_cons_of_mem _ hb, hparse⟩
      · rcases List.mem_cons.mp hb with rfl | hb
        · exact ⟨row, List.mem_cons_self, ha⟩
        · obtain ⟨other, hother, hparse⟩ := hitems b hb
          exact ⟨other, List.mem_cons_of_mem _ hother, hparse⟩

/-! ### Accounts of `cswap`

Field by field; the status is the one that is taken over as it is. -/

namespace Cswap

section

variable {S : Serde} {parseTime : String → Option DateTime} {ofRat : ℚ → F64} {now : ℤ}

/-- A time that is told by its age is in range. -/
theorem agedTime_inRange (hnow : Current now) {age : Option F64} {aged : Option DateTime}
    (h : agedTime age now = .ok aged) : ∀ t ∈ aged, InRange t := by
  intro t ht
  unfold agedTime at h
  cases age with
  | none => cases h; cases ht
  | some age =>
    dsimp only at h
    split at h
    · rename_i hrange
      cases h
      cases ht
      obtain ⟨-, h0, h1⟩ := hrange
      obtain ⟨hlow, hhigh⟩ := hnow.range
      have hfloor0 : 0 ≤ ⌊toRat age * 1000000000⌋ :=
        Int.floor_nonneg.mpr (mul_nonneg h0 (by norm_num))
      have hfloor1 : ⌊toRat age * 1000000000⌋ ≤ 1000000000000000000 := by
        have hle : toRat age * 1000000000 ≤ 1000000000000000000 := by linarith
        have hcast : (⌊toRat age * 1000000000⌋ : ℚ) ≤ (1000000000000000000 : ℤ) := by
          refine (Int.floor_le _).trans ?_
          exact_mod_cast hle
        exact_mod_cast hcast
      exact inRange_ofNanos (by omega) (by omega)
    · cases h

/-- The clock is in range. -/
theorem inRange_now (hnow : Current now) : InRange (.ofNanos now) := by
  obtain ⟨hlow, hhigh⟩ := hnow.range
  exact inRange_ofNanos (by omega) (by omega)

/-- The time of a measurement is in range. -/
theorem measurementTime_inRange (hparse : ParsesInRange parseTime) (hnow : Current now)
    {raw : Option String} {age : Option F64} {observed : Option DateTime}
    (h : measurementTime parseTime raw age now = .ok observed) : ∀ t ∈ observed, InRange t := by
  unfold measurementTime at h
  obtain ⟨aged, haged, h⟩ := bind_ok h
  have haged := agedTime_inRange hnow haged
  cases hraw : (raw.map trimmed).filter (· ≠ "") with
  | none =>
    rw [hraw] at h
    cases h
    exact haged
  | some text =>
    rw [hraw] at h
    obtain ⟨seen, hseen, h⟩ := bind_ok h
    have hseen := hparse _ _ (okOr_ok.mp hseen)
    split at h
    · cases h
    · cases h
      intro t ht
      cases ht
      cases aged with
      | none => exact inRange_min hseen (inRange_now hnow)
      | some aged => exact inRange_min (haged aged rfl) (inRange_min hseen (inRange_now hnow))

/-- The two texts that are shown in place of a status are short. -/
theorem len_unavailable : len "unavailable" ≤ 64 := by decide

theorem len_ok : len "ok" ≤ 64 := by decide

/-- The address of an account is clean, also if it had to be made up. -/
theorem email_clean {raw : RawAccount} (h : 0 < raw.number)
    (fiveHour sevenDay : Option AccountWindow)
    (observed : Option DateTime) :
    (rawAccount raw fiveHour sevenDay observed).email
      = safeLabel (rawAccount raw fiveHour sevenDay observed).email := by
  unfold rawAccount
  dsimp only
  split
  · have hpos := Int64.lt_iff_toInt_lt.mp h
    rw [show (0 : Int64).toInt = 0 from rfl] at hpos
    have hlt := raw.number.toInt_lt
    have hcast : raw.number.toInt = (raw.number.toInt.toNat : ℕ) := by omega
    rw [hcast, safeLabel_numbered (by omega)]
  · exact (safeLabel_safeLabel _).symm

/-- An account of the command passes every check of its own but that on its status. -/
theorem alone_rawAccount {raw : RawAccount} (h : 0 < raw.number)
    {fiveHour sevenDay : Option AccountWindow} (hfive : accountWindow fiveHour = true)
    (hseven : accountWindow sevenDay = true) {observed : Option DateTime}
    (hobserved : ∀ t ∈ observed, InRange t) :
    Alone .claude (rawAccount raw fiveHour sevenDay observed) ↔ len (status raw) ≤ 64 := by
  have hemail := email_clean h fiveHour sevenDay observed
  have hplan : "" = normalizePlan "" := by decide
  have htime := timestampLen_map hobserved
  rw [alone_iff]
  generalize hacc : rawAccount raw fiveHour sevenDay observed = a at hemail ⊢
  have hnumber : a.number = raw.number := by rw [← hacc]; simp only [rawAccount]
  have hname : a.displayName = safeLabel (raw.«alias».getD "") := by
    rw [← hacc]; simp only [rawAccount]
  have hstatus : a.status = status raw := by rw [← hacc]; simp only [rawAccount]
  have h5 : a.fiveHour = fiveHour := by rw [← hacc]; simp only [rawAccount]
  have h7 : a.sevenDay = sevenDay := by rw [← hacc]; simp only [rawAccount]
  have hrate : a.tokensPerHour = none := by rw [← hacc]; simp only [rawAccount]
  have htotal : a.totalTokens = none := by rw [← hacc]; simp only [rawAccount]
  have hrefresh : a.lastRefreshAt = observed.map formatDateTime := by
    rw [← hacc]; simp only [rawAccount]
  have hquota : a.quotaObservedAt = none := by rw [← hacc]; simp only [rawAccount]
  have hplanType : a.planType = "" := by rw [← hacc]; simp only [rawAccount]
  rw [hnumber, hname, hstatus, h5, h7, hrate, htotal, hrefresh, hquota, hplanType]
  have hlabel := (safeLabel_safeLabel (raw.«alias».getD "")).symm
  refine ⟨fun hall => hall.2.2.2.2.1, fun hlen =>
    ⟨h, ?_, hemail, hlabel, hlen, hfive, hseven, nofun, nofun, htime, rfl, hplan⟩⟩
  rintro ⟨hcodex, -⟩
  cases hcodex

/-- What is cleared makes no difference to the checks. -/
theorem alone_clearStale {a : Account} (h : accountWindow a.fiveHour = true)
    (h' : accountWindow a.sevenDay = true) : Alone .claude (clearStale a) ↔ Alone .claude a := by
  have hstatus : len (clearStale a).status ≤ 64 ↔ len a.status ≤ 64 := by
    unfold clearStale
    dsimp only
    split
    · rename_i hok
      rw [hok]
      exact iff_of_true len_unavailable len_ok
    · exact Iff.rfl
  rw [alone_iff, alone_iff, hstatus]
  have hnone : accountWindow (clearStale a).fiveHour = true := rfl
  have hnone' : accountWindow (clearStale a).sevenDay = true := rfl
  rw [hnone, hnone', h, h']
  exact Iff.rfl

/-- An account keeps its number. -/
theorem parseAccount_number {raw : RawAccount} {q : Account × Option DateTime}
    (h : parseAccount parseTime ofRat raw now = .ok q) : q.1.number = raw.number := by
  unfold parseAccount at h
  obtain ⟨fiveHour, -, h⟩ := bind_ok h
  obtain ⟨sevenDay, -, h⟩ := bind_ok h
  obtain ⟨observed, -, h⟩ := bind_ok h
  rw [← Except.ok.inj h]
  dsimp only
  generalize isStale observed _ now = stale
  cases stale <;> simp only [rawAccount, clearStale, if_true, if_false, Bool.false_eq_true]

/-- **An account of the command.**  It passes unless its status is too long. -/
theorem parseAccount_spec (hunit : RoundsUnit ofRat) (hparse : ParsesInRange parseTime)
    (hnow : Current now) {raw : RawAccount} (hnumber : 0 < raw.number) {a : Account}
    {t : Option DateTime} (h : parseAccount parseTime ofRat raw now = .ok (a, t)) :
    (∀ u ∈ t, InRange u) ∧ timestampLen a.lastRefreshAt = true ∧
      accountWindow a.fiveHour = true ∧ accountWindow a.sevenDay = true ∧
      (Alone .claude a ↔ len (status raw) ≤ 64) := by
  unfold parseAccount at h
  obtain ⟨fiveHour, hfive, h⟩ := bind_ok h
  obtain ⟨sevenDay, hseven, h⟩ := bind_ok h
  obtain ⟨observed, hobserved, h⟩ := bind_ok h
  have hfive := normalizeWindow_ok hunit hparse hfive
  have hseven := normalizeWindow_ok hunit hparse hseven
  have hobserved := measurementTime_inRange hparse hnow hobserved
  have halone := alone_rawAccount hnumber hfive hseven hobserved
  have htime := timestampLen_map hobserved
  have hpair := Prod.mk.inj (Except.ok.inj h)
  rw [← hpair.2]
  generalize hacc : rawAccount raw fiveHour sevenDay observed = b at halone hpair
  have h5 : accountWindow b.fiveHour = true := by rw [← hacc]; simp only [rawAccount, hfive]
  have h7 : accountWindow b.sevenDay = true := by rw [← hacc]; simp only [rawAccount, hseven]
  have hrefresh : timestampLen b.lastRefreshAt = true := by
    rw [← hacc]; simp only [rawAccount, htime]
  obtain ⟨ha, -⟩ := hpair
  generalize isStale observed _ now = stale at ha
  cases stale with
  | true =>
    rw [← ha]
    exact ⟨hobserved, hrefresh, rfl, rfl, (alone_clearStale h5 h7).trans halone⟩
  | false =>
    rw [← ha]
    exact ⟨hobserved, hrefresh, h5, h7, halone⟩

/-- The newest of some times is one of them. -/
theorem newest_inRange {times : List (Option DateTime)} (h : ∀ x ∈ times, ∀ t ∈ x, InRange t) :
    ∀ t ∈ newest times, InRange t := by
  have hfold : ∀ (f : Option DateTime → Option DateTime → Option DateTime),
      (∀ n x, (∀ t ∈ n, InRange t) → (∀ t ∈ x, InRange t) → ∀ t ∈ f n x, InRange t) →
      ∀ (times : List (Option DateTime)) (start : Option DateTime),
      (∀ t ∈ start, InRange t) → (∀ x ∈ times, ∀ t ∈ x, InRange t) →
      ∀ t ∈ times.foldl f start, InRange t := by
    intro f hf times
    induction times with
    | nil => intro start hstart _; exact hstart
    | cons x times ih =>
      intro start hstart htimes
      apply ih _ _ fun y hy => htimes y (List.mem_cons_of_mem _ hy)
      exact hf start x hstart (htimes x List.mem_cons_self)
  unfold newest
  refine hfold _ ?_ times none (fun t ht => by cases ht) h
  intro n x hn hx
  cases n with
  | none => exact hx
  | some n =>
    cases x with
    | none => exact hn
    | some t =>
      intro u hu
      rw [← Option.some.inj hu]
      exact inRange_max (hn n rfl) (hx t rfl)

/-- What a successful parse guarantees of all accounts. -/
structure ParsedOk (p : Parsed) : Prop where
  nodup : (p.accounts.map Account.number).Nodup
  length : p.accounts.length ≤ maxAccounts
  updated : timestampLen p.updatedAt = true
  active : (p.accounts.filter Account.active).length ≤ 1
  shown : ∀ a ∈ p.accounts, timestampLen a.lastRefreshAt = true ∧ accountWindow a.fiveHour = true ∧
    accountWindow a.sevenDay = true

/-- Unbinding the accounts changes nothing else. -/
theorem bindActive_eq (number : Option Int64) (accounts : List Account) :
    bindActive number accounts = accounts ∨
      bindActive number accounts = accounts.map fun a => { a with active := false } := by
  unfold bindActive
  dsimp only
  split
  · exact .inr rfl
  · exact .inl rfl

/-- One account is active at most. -/
theorem bindActive_active (number : Option Int64) (accounts : List Account) :
    ((bindActive number accounts).filter Account.active).length ≤ 1 := by
  unfold bindActive
  dsimp only
  split
  · rw [List.filter_map, List.length_map, List.filter_eq_nil_iff.mpr]
    · exact Nat.zero_le 1
    · intro a _
      exact Bool.false_ne_true
  · rename_i h
    exact Nat.not_lt.mp (not_or.mp h).1

/-- The command lists as many accounts as may be published, at most. -/
theorem readList_length {raw : List UInt8} {list : CommandList} (h : readList S raw = some list) :
    list.accounts.length ≤ maxAccounts := by
  obtain ⟨j, -, h⟩ := Option.bind_eq_some_iff.mp h
  obtain ⟨slots, h⟩ := Codec.openObject_get h
  obtain ⟨parts, hparts, rfl⟩ := Fields.map_get_some h
  obtain ⟨-, rest, hrest⟩ := Fields.and_get_some hparts
  obtain ⟨-, last, hlast⟩ := Fields.and_get_some hrest
  rcases Fields.slot_get_some hlast with ⟨j, hread⟩ | hread | hread
  · exact Codec.bounded_read_length hread
  · cases hread
  · cases hread

/-- **The accounts of the command.**  All of them pass unless a status is too long. -/
theorem parseCommand_spec (hunit : RoundsUnit ofRat) (hparse : ParsesInRange parseTime)
    (hnow : Current now) {raw : List UInt8} {p : Parsed}
    (h : parseCommand S parseTime ofRat raw now = .ok p) :
    ∃ list, readList S raw = some list ∧ ParsedOk p ∧
      ((∀ a ∈ p.accounts, Alone .claude a) ↔ ∀ row ∈ list.accounts, len (status row) ≤ 64) := by
  unfold parseCommand at h
  split at h
  · cases h
  cases hlist : readList S raw with
  | none => rw [hlist] at h; cases h
  | some list =>
    rw [hlist] at h
    dsimp only at h
    split at h
    · cases h
    obtain ⟨parsed, hparsed, h⟩ := bind_ok h
    cases h
    -- one account for each row, with its number; the numbers differ
    obtain ⟨hmap, hnodup, hrows, hitems⟩ := distinctRows_spec
      (fun q : Account × Option DateTime => q.1.number)
      (fun row q hq => (parseAccount_number hq)) hparsed
    have hspec : ∀ row ∈ list.accounts, ∀ q, parseAccount parseTime ofRat row now = .ok q →
        (∀ u ∈ q.2, InRange u) ∧ timestampLen q.1.lastRefreshAt = true ∧
          accountWindow q.1.fiveHour = true ∧ accountWindow q.1.sevenDay = true ∧
          (Alone .claude q.1 ↔ len (status row) ≤ 64) := fun row hrow q hq =>
      parseAccount_spec hunit hparse hnow (hrows row hrow).1.1 hq
    -- only the length of a status is left to the publisher
    have halone : (∀ a ∈ parsed.map Prod.fst, Alone .claude a) ↔
        ∀ row ∈ list.accounts, len (status row) ≤ 64 := by
      constructor
      · intro hall row hrow
        obtain ⟨-, q, hq, hparsed⟩ := hrows row hrow
        exact (hspec row hrow q hparsed).2.2.2.2.mp (hall _ (List.mem_map_of_mem hq))
      · intro hall a ha
        obtain ⟨q, hq, rfl⟩ := List.mem_map.mp ha
        obtain ⟨row, hrow, hparsed⟩ := hitems q hq
        exact (hspec row hrow q hparsed).2.2.2.2.mpr (hall row hrow)
    have hshown : ∀ a ∈ parsed.map Prod.fst, timestampLen a.lastRefreshAt = true ∧
        accountWindow a.fiveHour = true ∧ accountWindow a.sevenDay = true := by
      intro a ha
      obtain ⟨q, hq, rfl⟩ := List.mem_map.mp ha
      obtain ⟨row, hrow, hparsed⟩ := hitems q hq
      obtain ⟨-, h1, h2, h3, -⟩ := hspec row hrow q hparsed
      exact ⟨h1, h2, h3⟩
    have hnumbers : ((parsed.map Prod.fst).map Account.number).Nodup := by
      rw [List.map_map]
      exact hmap ▸ hnodup
    have hlength : (parsed.map Prod.fst).length ≤ maxAccounts := by
      have hlist := readList_length hlist
      have hlen := congrArg List.length hmap
      rw [List.length_map, List.length_map] at hlen
      rw [List.length_map, hlen]
      exact hlist
    have hupdated : timestampLen ((newest (parsed.map Prod.snd)).map formatDateTime) = true := by
      refine timestampLen_map (newest_inRange fun x hx => ?_)
      obtain ⟨q, hq, rfl⟩ := List.mem_map.mp hx
      obtain ⟨row, hrow, hparsed⟩ := hitems q hq
      exact (hspec row hrow q hparsed).1
    have hactive := bindActive_active list.activeAccountNumber (parsed.map Prod.fst)
    refine ⟨list, rfl, ?_⟩
    -- the accounts stay as they are, or none of them is active
    generalize parsed.map Prod.fst = accounts at halone hshown hnumbers hlength hactive
    rcases bindActive_eq list.activeAccountNumber accounts with hbind | hbind
    · rw [hbind] at hactive ⊢
      exact ⟨⟨hnumbers, hlength, hupdated, hactive, hshown⟩, halone⟩
    · rw [hbind] at hactive ⊢
      refine ⟨⟨?_, ?_, hupdated, hactive, fun a ha => ?_⟩, ?_⟩
      · rw [List.map_map]
        exact hnumbers
      · rw [List.length_map]
        exact hlength
      · obtain ⟨b, hb, rfl⟩ := List.mem_map.mp ha
        exact hshown b hb
      · rw [← halone, List.forall_mem_map]
        exact Iff.rfl

/-! ### The snapshot of `claude_swap`

Apart from the statuses of its accounts, nothing of the snapshot comes from the command as it is.
-/

/-- The summary of an account's window is published. -/
theorem window_summary (hparse : ParsesInRange parseTime) (hnow : Current now) {w : AccountWindow}
    (h : accountWindow (some w) = true) : window (summaryWindow parseTime w now) = true := by
  have hparts : ratio w.usedPct = true ∧ timestampLen w.resetsAt = true := by
    rw [← Bool.and_eq_true]
    exact h
  have hremaining : 0 ≤ remaining (w.resetsAt.bind parseTime) now := by
    refine remaining_nonneg (fun t ht => ?_) hnow
    obtain ⟨raw, -, ht⟩ := Option.bind_eq_some_iff.mp ht
    exact hparse _ _ ht
  unfold window summaryWindow
  dsimp only
  rw [hparts.1, hparts.2, decide_eq_true hremaining]
  rfl

/-- What the active account gives can be published. -/
theorem publishable_bindAccount (hparse : ParsesInRange parseTime) (hnow : Current now)
    {s : Snapshot} (h : Publishable s) {a : Account}
    (hrefresh : timestampLen a.lastRefreshAt = true)
    (hfive : accountWindow a.fiveHour = true) (hseven : accountWindow a.sevenDay = true) :
    Publishable (bindAccount parseTime s a now) ∧
      (bindAccount parseTime s a now).accounts = s.accounts ∧
      (bindAccount parseTime s a now).provider = s.provider := by
  have hstate : ∀ state : String, state ≠ "" ∧ len state ≤ 64 →
      (if a.status = "ok" ∨ a.status = "stale" then "ok" else state) ≠ "" ∧
        len (if a.status = "ok" ∨ a.status = "stale" then "ok" else state) ≤ 64 := by
    intro state hs
    split
    · exact ⟨by decide, len_ok⟩
    · exact hs
  unfold bindAccount
  dsimp only
  cases h5 : a.fiveHour with
  | none =>
    cases h7 : a.sevenDay with
    | none =>
      exact ⟨{ h with state := hstate _ h.state, observed := hrefresh }, rfl, rfl⟩
    | some w =>
      rw [h7] at hseven
      exact ⟨{ h with state := hstate _ h.state, observed := hrefresh,
                      weekly := window_summary hparse hnow hseven }, rfl, rfl⟩
  | some w =>
    rw [h5] at hfive
    cases h7 : a.sevenDay with
    | none =>
      exact ⟨{ h with state := hstate _ h.state, observed := hrefresh,
                      rolling := window_summary hparse hnow hfive }, rfl, rfl⟩
    | some w' =>
      rw [h7] at hseven
      exact ⟨{ h with state := hstate _ h.state, observed := hrefresh,
                      rolling := window_summary hparse hnow hfive,
                      weekly := window_summary hparse hnow hseven }, rfl, rfl⟩

/-- The snapshot before the active account is bound. -/
def unbound (cli : Snapshot) (p : Parsed) (now : ℤ) : Snapshot :=
  let s := Snapshot.degraded .claude cli.seq now "networkError"
  copyActivity { s with
    status := { s.status with quotaSource := "claude_swap" }
    accounts := p.accounts
    accountsUpdatedAt := p.updatedAt } cli

/-- What the CLI says is published beside the accounts of the command. -/
theorem publishable_unbound (hnow : Current now) {cli : Snapshot}
    (hcli : validate parseTime cli = .ok ()) {p : Parsed} (h : ParsedOk p) :
    Publishable (unbound cli p now) := by
  obtain ⟨hseq, hburn, hrate, htokens, hsessions⟩ := validate_activity hcli
  have hbase : Publishable (Snapshot.degraded .claude cli.seq now "networkError") :=
    publishable_degraded hseq hnow ⟨by decide, by decide⟩
  have hsource : len (if cli.status.dataSource = "api+jsonl" ∨ cli.status.dataSource = "jsonl_only"
      then "api+jsonl" else "api_only") ≤ 128 := by
    split <;> decide
  exact { hbase with
    burnState := hburn
    burnRate := hrate
    tokens := htokens
    sessions := hsessions
    dataSource := hsource
    quotaSource := show len "claude_swap" ≤ 128 by decide
    updated := h.updated
    length := h.length }

/-- **The accounts decide** whether the snapshot of `cswap` can be published. -/
theorem claudeSwap_ok_iff (hparse : ParsesInRange parseTime) (hnow : Current now) {cli : Snapshot}
    (hcli : validate parseTime cli = .ok ()) (hclaude : cli.provider = .claude) {p : Parsed}
    (h : ParsedOk p) :
    (∃ s, claudeSwap parseTime cli p now = .ok s) ↔ ∀ a ∈ p.accounts, Alone .claude a := by
  have hunbound := publishable_unbound hnow hcli h
  -- with the provider and the number of active accounts right, only the validation is left
  have hswap : claudeSwap parseTime cli p now = (do
      let s := ((p.accounts.find? Account.active).map fun a =>
        bindAccount parseTime (unbound cli p now) a now).getD (unbound cli p now)
      validate parseTime s
      return s) := by
    unfold claudeSwap
    rw [if_neg (fun hne => hne hclaude), ok_bind hcli]
    refine (if_neg (Nat.not_lt.mpr h.active)).trans ?_
    dsimp only
    split
    · next hnone =>
      have hfind : p.accounts.find? Account.active = none := hnone
      rw [hfind]
      rfl
    · next a hsome =>
      have hfind : p.accounts.find? Account.active = some a := hsome
      rw [hfind]
      rfl
  -- and that asks every account to be alone with its name
  have hok : ∀ s, Publishable s → s.accounts = p.accounts → s.provider = .claude →
      ((∃ s', (do validate parseTime s; return s : Except Error Snapshot) = .ok s') ↔
        ∀ a ∈ p.accounts, Alone .claude a) := by
    intro s hs haccounts hprovider
    have hvalid : validate parseTime s = .ok () ↔ _ :=
      hs.validate_iff (by rw [haccounts]; exact h.nodup)
    rw [haccounts, hprovider] at hvalid
    rw [← hvalid]
    constructor
    · rintro ⟨s', hs'⟩
      obtain ⟨⟨⟩, hv, -⟩ := bind_ok hs'
      exact hv
    · intro hv
      exact ⟨s, ok_bind hv⟩
  rw [hswap]
  cases hactive : p.accounts.find? Account.active with
  | none => exact hok _ hunbound rfl rfl
  | some a =>
    obtain ⟨h1, h2, h3⟩ := h.shown a (List.mem_of_find?_eq_some hactive)
    obtain ⟨hpub, haccounts, hprovider⟩ := publishable_bindAccount hparse hnow hunbound h1 h2 h3
    exact hok _ hpub haccounts hprovider

end

end Cswap

/-! ### The account export

Field by field; the token counts are the ones that are taken over as they are. -/

namespace CodexAccounts

section

variable {S : Serde} {parseTime : String → Option DateTime} {ofRat : ℚ → F64}

/-- A status that was normalized is short. -/
theorem len_normalizeStatus (raw : String) : len (normalizeStatus raw) ≤ 64 := by
  have hcut : ∀ (normalized : String) (p : Prop) [Decidable p],
      len (if 64 < len normalized ∨ p then "unavailable" else normalized) ≤ 64 := by
    intro normalized p _
    split
    · exact Cswap.len_unavailable
    · rename_i h
      exact Nat.not_lt.mp (not_or.mp h).1
  unfold normalizeStatus
  exact hcut _ _

/-- The token counts of a row are not negative. -/
def Row.counts (row : Row) : Prop :=
  (∀ n ∈ row.tokensPerHour, n.isNegative = false) ∧ ∀ n ∈ row.totalTokens, 0 ≤ n

/-- A row keeps its number. -/
theorem parseRow_number {row : Row} {a : Account} (h : parseRow parseTime ofRat row = .ok a) :
    a.number = row.number := by
  unfold parseRow at h
  obtain ⟨-, -, h⟩ := bind_ok h
  obtain ⟨fiveHour, -, h⟩ := bind_ok h
  obtain ⟨sevenDay, -, h⟩ := bind_ok h
  rw [← Except.ok.inj h]
  simp only [rowAccount]

/-- The label of a row is clean. -/
theorem label_clean {row : Row} (h : 0 < row.number) : label row = safeLabel (label row) := by
  unfold label
  dsimp only
  split
  · have hpos := Int64.lt_iff_toInt_lt.mp h
    rw [show (0 : Int64).toInt = 0 from rfl] at hpos
    have hlt := row.number.toInt_lt
    have hcast : row.number.toInt = (row.number.toInt.toNat : ℕ) := by omega
    rw [hcast, safeLabel_numbered (by omega)]
  · exact (safeLabel_safeLabel _).symm

/-- **An account of an export.**  It passes unless one of its token counts is negative. -/
theorem parseRow_spec (hunit : RoundsUnit ofRat) (hparse : ParsesInRange parseTime) {row : Row}
    (hnumber : 0 < row.number) {a : Account} (h : parseRow parseTime ofRat row = .ok a)
    (provider : Provider) : Alone provider a ↔ row.counts := by
  unfold parseRow at h
  obtain ⟨⟨⟩, hfinite, h⟩ := bind_ok h
  obtain ⟨fiveHour, hfive, h⟩ := bind_ok h
  obtain ⟨sevenDay, hseven, h⟩ := bind_ok h
  have hfive := exportWindow_ok hunit hparse hfive
  have hseven := exportWindow_ok hunit hparse hseven
  have hlabel := label_clean hnumber
  have hstatus := len_normalizeStatus (row.status.getD "")
  have hrefresh :
    timestampLen ((timestamp parseTime row.lastRefreshAt).map formatDateTime) = true :=
    timestampLen_map fun t ht => timestamp_inRange hparse ht
  have hplan := (normalizePlan_normalizePlan (plan row)).symm
  have hempty : "" = safeLabel "" := by decide
  have hfinite : ∀ n ∈ row.tokensPerHour, n.isFinite = true := by
    rw [require_ok, Option.all_eq_true] at hfinite
    exact hfinite
  rw [← Except.ok.inj h, alone_iff]
  simp only [rowAccount]
  unfold Row.counts
  constructor
  · rintro ⟨-, -, -, -, -, -, -, htokens, htotal, -⟩
    exact ⟨fun n hn => (htokens n hn).2, htotal⟩
  · rintro ⟨htokens, htotal⟩
    exact ⟨hnumber, fun h => h.2 rfl, hempty, hlabel, hstatus, hfive, hseven,
      fun n hn => ⟨hfinite n hn, htokens n hn⟩, htotal, hrefresh, rfl, hplan⟩

/-- The export has as many rows as may be published, at most. -/
theorem readExport_length {raw : List UInt8} {source : Export}
    (h : readExport S raw = some source) :
    ∀ rows ∈ source.accounts, rows.length ≤ maxAccounts := by
  intro rows hrows
  obtain ⟨j, -, h⟩ := Option.bind_eq_some_iff.mp h
  obtain ⟨slots, h⟩ := Codec.openObject_get h
  obtain ⟨parts, hparts, rfl⟩ := Fields.map_get_some h
  obtain ⟨-, rest, hrest⟩ := Fields.and_get_some hparts
  obtain ⟨-, last, hlast⟩ := Fields.and_get_some hrest
  rcases Fields.slot_get_some hlast with ⟨j, hread⟩ | hread | hread
  · rw [show parts.2.2 = some rows from hrows] at hread
    exact Codec.bounded_read_length (Codec.option_read_some hread)
  · rw [show parts.2.2 = some rows from hrows] at hread
    cases hread
  · rw [show parts.2.2 = some rows from hrows] at hread
    cases hread

/-- **The accounts of an export.**  Any snapshot that passes still passes with them, unless a token
    count is negative. -/
theorem parseAccountExport_spec (hunit : RoundsUnit ofRat) (hparse : ParsesInRange parseTime)
    {now : ℤ} (hnow : Current now) {mtime : DateTime} (hmtime : InRange mtime) {raw : List UInt8}
    {e : AccountExport} (h : parseAccountExport S parseTime ofRat raw now mtime = .ok e)
    {snap : Snapshot} (hsnap : validate parseTime snap = .ok ()) :
    ∃ source rows, readExport S raw = some source ∧ source.accounts = some rows ∧
      (validate parseTime { snap with accounts := e.accounts, accountsUpdatedAt := e.updatedAt }
          = .ok () ↔ ∀ row ∈ rows, row.counts) := by
  unfold parseAccountExport at h
  split at h
  · cases h
  split at h
  · cases h
  cases hsource : readExport S raw with
  | none => rw [hsource] at h; cases h
  | some source =>
    rw [hsource] at h
    dsimp only at h
    split at h
    · cases h
    obtain ⟨rows, hrows, h⟩ := bind_ok h
    have hrows := okOr_ok.mp hrows
    obtain ⟨accounts, haccounts, h⟩ := bind_ok h
    cases h
    -- the numbers of the rows are those of the accounts, one by one
    obtain ⟨hmap, hnodup, hall, hitems⟩ :=
      distinctRows_spec Account.number (fun row a ha => parseRow_number ha) haccounts
    have hnumbers : (accounts.map Account.number).Nodup := hmap ▸ hnodup
    have hlength : accounts.length ≤ maxAccounts := by
      have hlen := congrArg List.length hmap
      rw [List.length_map, List.length_map] at hlen
      rw [hlen]
      exact readExport_length hsource rows hrows
    -- an account passes alone exactly when its row counts
    have halone : (∀ a ∈ accounts, Alone snap.provider a) ↔ ∀ row ∈ rows, row.counts := by
      constructor
      · intro hpass row hrow
        obtain ⟨⟨hpos, -⟩, a, ha, hparsed⟩ := hall row hrow
        exact (parseRow_spec hunit hparse hpos hparsed _).mp (hpass a ha)
      · intro hcounts a ha
        obtain ⟨row, hrow, hparsed⟩ := hitems a ha
        exact (parseRow_spec hunit hparse (hall row hrow).1.1 hparsed _).mpr (hcounts row hrow)
    refine ⟨source, rows, rfl, hrows, ?_⟩
    rw [← halone]
    refine validate_replaced hsnap hnumbers hlength ?_
    split
    · rfl
    · refine timestampLen_map (x := some _) ?_
      rintro t ⟨⟩
      split
      · exact Cswap.inRange_now hnow
      · cases htime : timestamp parseTime source.accountsUpdatedAt with
        | none => exact hmtime
        | some t => exact timestamp_inRange hparse htime

end

end CodexAccounts

end Hmux.Usage
