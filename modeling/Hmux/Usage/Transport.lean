import Mathlib.Data.String.Basic
import Hmux.Lib.Check
import Hmux.Lib.Chrono
import Hmux.Lib.OrderedMap
import Hmux.Usage.Model

namespace Hmux.Usage

open Lib Pb

/-!
# Usage snapshots on the JSON transport

`transport.rs`: the checks that a snapshot passes before it is sent and after it arrived, and
its JSON form.  A snapshot may have two sources, which are snapshots without sources.

* `validate_parts` — what the proofs use of the checks;
* `decode_encode` — what is sent arrives as it is.
-/

/-- `hmux_usage::Error`, as far as the transport reports it. -/
inductive Error
  | limit | invalid
  deriving DecidableEq

/-- `MAX_SNAPSHOT_BYTES`. -/
def maxSnapshotBytes : ℕ := 1048576

/-! ### Checks

The checks of a snapshot, with those of its sources one level down. -/

/-- `timestamp_len`. -/
def timestampLen (s : Option String) : Bool := s.all fun s => len s ≤ 128

/-- `ratio`. -/
def ratio (x : F64) : Bool := x.isFinite && x.inUnit

/-- `window`. -/
def window (w : Window) : Bool :=
  ratio w.usedPct && 0 ≤ w.remainingSeconds && timestampLen w.resetsAt

/-- `account_window`. -/
def accountWindow (w : Option AccountWindow) : Bool :=
  w.all fun w => ratio w.usedPct && timestampLen w.resetsAt

section

variable (parseTime : String → Option DateTime)

/-- `retry`. -/
def retry (s : Snapshot) : Bool :=
  match s.status.retryAt with
  | none => true
  | some raw =>
    if 128 < len raw || !(s.status.state == "rateLimited" || (s.status.state == "ok" &&
      s.status.stale))
    then false
    else
      match parseTime raw, parseTime s.generatedAtUtc with
      | some reset, some generated =>
        TimeDelta.lt (.hours 0) (reset.signedDurationSince generated) &&
          !TimeDelta.lt (.hours 24) (reset.signedDurationSince generated)
      | _, _ => false

/-- The checks of a snapshot's own fields. -/
def fields (s : Snapshot) : Bool :=
  s.schema == 1 && 0 ≤ s.seq && s.generatedAtUtc != "" && len s.generatedAtUtc ≤ 128 &&
    len s.burnState ≤ 32 && s.burnRatePerMin.isFinite && !s.burnRatePerMin.isNegative &&
    0 ≤ s.todayTotalTokens && 0 ≤ s.todaySessions && s.planType == normalizePlan s.planType &&
    window s.rolling5h && window s.weekly && s.status.state != "" && len s.status.state ≤ 64 &&
    validQuotaWeighting s.status.quotaWeighting && len s.status.dataSource ≤ 128 &&
    len s.status.quotaSource ≤ 128 && timestampLen s.status.quotaObservedAt &&
    retry parseTime s && timestampLen s.accountsUpdatedAt && s.accounts.length ≤ maxAccounts &&
    s.sources.length ≤ 2

/-- The names a source may have, by provider and by where the quota comes from. -/
def sourceAllowed (provider : Provider) (name quota : String) : Bool :=
  (name == "cli" && (quota == "oauth_api" || quota == "none")) ||
    (provider == .claude && name == "cswap" && quota == "claude_swap") ||
    (provider == .codex && name == "codex-lb" && quota == "codex_lb")

/-- The checks of one source. -/
def source (s : Snapshot) (name : String) (child : Snapshot) : Bool :=
  sourceAllowed s.provider name child.status.quotaSource && child.provider == s.provider &&
    child.sources.isEmpty

/-- The checks of one account after those in `before`. -/
def account (provider : Provider) (before : List Account) (a : Account) : Bool :=
  0 < a.number && !(before.any fun prev => prev.number == a.number) &&
    !(provider == .codex && a.email != "") && a.email == safeLabel a.email &&
    a.displayName == safeLabel a.displayName && len a.status ≤ 64 && accountWindow a.fiveHour &&
    accountWindow a.sevenDay && (a.tokensPerHour.all fun n => n.isFinite && !n.isNegative) &&
    (a.totalTokens.all fun n => 0 ≤ n) && timestampLen a.lastRefreshAt &&
    timestampLen a.quotaObservedAt && a.planType == normalizePlan a.planType

/-- `validate`, with the check of a source given. -/
def checks (inner : Snapshot → Except Error Unit) (s : Snapshot) : Except Error Unit :=
  allOk (require (fields parseTime s) .invalid ::
    ((s.sources.map fun p => allOk [require (source s p.1 p.2) .invalid, inner p.2]) ++
      s.accounts.zipIdx.map fun p =>
        require (account s.provider (s.accounts.take p.2) p.1) .invalid))

/-- `validate`.  A source has no sources, so its own check stops there. -/
def validate (s : Snapshot) : Except Error Unit :=
  checks parseTime (checks parseTime fun _ => .ok ()) s

end

/-! ### The wire form

What is written has the sources as objects by name; what is read has them as values that are looked
at later. -/

/-- `WireSnapshot`, its sources as JSON values. -/
structure WireSnapshot where
  schema : Int64
  seq : Int64
  generatedAtUtc : String
  provider : Option Provider
  planType : String
  burnRatePerMin : F64
  burnState : String
  todayTotalTokens : Int64
  todaySessions : Int64
  rolling5h : Window
  weekly : Window
  rolling5hObserved : Bool
  weeklyObserved : Bool
  status : Status
  accounts : List Account
  accountsUpdatedAt : Option String
  sources : List (String × Json)

/-- `sources`: two at most, with short and distinct names. -/
def readSources : List (String × Json) → List (String × Json) → Option (List (String × Json))
  | out, [] => some out
  | out, (key, j) :: rest =>
    if out.length = 2 || 16 < len key || (out.any fun e => e.1 == key) then none
    else readSources (OrderedMap.insert key j out) rest

/-- The sources, in the order of their names. -/
def sourcesCodec : Codec (List (String × Json)) where
  write l := .obj l
  read
    | .null => some []
    | .obj entries => readSources [] entries
    | _ => none

section

variable (ofInt : ℤ → UInt64)

/-- `accounts`: 128 at most. -/
def accountsCodec : Codec (List Account) where
  write l := .arr (l.map (Account.codec ofInt).write)
  read
    | .null => some []
    | .arr items =>
      if items.length ≤ maxAccounts then items.mapM (Account.codec ofInt).read else none
    | _ => none

/-- The fields of a snapshot: written as `Snapshot` has them, read as `WireSnapshot` does. -/
def WireSnapshot.fields : Fields WireSnapshot :=
  Fields.map
    (Fields.and (.number "schema") <| Fields.and (.number "seq") <|
     Fields.and (.text "generated_at_utc") <|
     Fields.and (.defaulted "provider" Provider.codec.option none) <|
     Fields.and (.omitEmpty "plan_type") <|
     Fields.and (.defaulted "burn_rate_per_min" (F64.codec ofInt) ⟨0⟩) <|
     Fields.and (.text "burn_state") <| Fields.and (.number "today_total_tokens") <|
     Fields.and (.number "today_sessions") <|
     Fields.and (.defaulted "rolling_5h" (Window.codec ofInt) default) <|
     Fields.and (.defaulted "weekly" (Window.codec ofInt) default) <|
     Fields.and (.flag "rolling_5h_observed") <| Fields.and (.flag "weekly_observed") <|
     Fields.and (.defaulted "status" Status.codec default) <|
     Fields.and (.skipped "accounts" (accountsCodec ofInt) [] List.isEmpty) <|
     Fields.and (.omitNone "accounts_updated_at" .string) <|
     .skipped "sources" sourcesCodec [] List.isEmpty)
    (fun (schema, seq, generatedAtUtc, provider, planType, burnRatePerMin, burnState,
      todayTotalTokens, todaySessions, rolling5h, weekly, rolling5hObserved, weeklyObserved,
      status, accounts, accountsUpdatedAt, sources) => ⟨schema, seq, generatedAtUtc, provider,
      planType, burnRatePerMin, burnState, todayTotalTokens, todaySessions, rolling5h, weekly,
      rolling5hObserved, weeklyObserved, status, accounts, accountsUpdatedAt, sources⟩)
    (fun m => (m.schema, m.seq, m.generatedAtUtc, m.provider, m.planType, m.burnRatePerMin,
      m.burnState, m.todayTotalTokens, m.todaySessions, m.rolling5h, m.weekly,
      m.rolling5hObserved, m.weeklyObserved, m.status, m.accounts, m.accountsUpdatedAt, m.sources))

/-- A snapshot on the wire. -/
def WireSnapshot.codec : Codec WireSnapshot := .object (WireSnapshot.fields ofInt)

/-- A snapshot with its sources as given. -/
def Snapshot.wire (s : Snapshot) (sources : List (String × Json)) : WireSnapshot :=
  { schema := s.schema, seq := s.seq, generatedAtUtc := s.generatedAtUtc,
    provider := some s.provider, planType := s.planType, burnRatePerMin := s.burnRatePerMin,
    burnState := s.burnState, todayTotalTokens := s.todayTotalTokens,
    todaySessions := s.todaySessions, rolling5h := s.rolling5h, weekly := s.weekly,
    rolling5hObserved := s.rolling5hObserved, weeklyObserved := s.weeklyObserved,
    status := s.status, accounts := s.accounts, accountsUpdatedAt := s.accountsUpdatedAt,
    sources }

mutual

/-- A snapshot as JSON. -/
def Snapshot.json : Snapshot → Json
  | ⟨schema, seq, generatedAtUtc, provider, planType, burnRatePerMin, burnState,
      todayTotalTokens, todaySessions, rolling5h, weekly, rolling5hObserved, weeklyObserved,
      status, accounts, accountsUpdatedAt, sources⟩ =>
    (WireSnapshot.codec ofInt).write (Snapshot.wire ⟨schema, seq, generatedAtUtc, provider,
      planType, burnRatePerMin, burnState, todayTotalTokens, todaySessions, rolling5h, weekly,
      rolling5hObserved, weeklyObserved, status, accounts, accountsUpdatedAt, []⟩
      (sourcesJson sources))

/-- Its sources as JSON. -/
def sourcesJson : List (String × Snapshot) → List (String × Json)
  | [] => []
  | (name, child) :: rest => (name, child.json) :: sourcesJson rest

end

/-- The snapshot of a wire form whose sources were read. -/
def WireSnapshot.snapshot (w : WireSnapshot) (sources : List (String × Snapshot)) :
    Option Snapshot :=
  w.provider.map fun provider =>
    { schema := w.schema, seq := w.seq, generatedAtUtc := w.generatedAtUtc, provider,
      planType := w.planType, burnRatePerMin := w.burnRatePerMin, burnState := w.burnState,
      todayTotalTokens := w.todayTotalTokens, todaySessions := w.todaySessions,
      rolling5h := w.rolling5h, weekly := w.weekly, rolling5hObserved := w.rolling5hObserved,
      weeklyObserved := w.weeklyObserved, status := w.status, accounts := w.accounts,
      accountsUpdatedAt := w.accountsUpdatedAt, sources }

/-- `materialize` of a source, which has no sources. -/
def materializeChild (w : WireSnapshot) : Option Snapshot :=
  if w.sources.isEmpty then w.snapshot [] else none

/-- `materialize`. -/
def materialize (w : WireSnapshot) : Option Snapshot :=
  (w.sources.mapM fun e =>
    (((WireSnapshot.codec ofInt).read e.2).bind materializeChild).map (Prod.mk e.1)).bind w.snapshot

end

/-! ### Sending and receiving

A snapshot is checked on both sides. -/

section

variable (parseTime : String → Option DateTime) (S : Serde)

/-- `encode`. -/
def encode (s : Snapshot) : Except Error (List UInt8) :=
  match validate parseTime s with
  | .error e => .error e
  | .ok _ =>
    if maxSnapshotBytes < (S.text (s.json S.ofInt)).length then .error .limit
    else .ok (S.text (s.json S.ofInt))

/-- `decode`. -/
def decode (raw : List UInt8) : Except Error Snapshot :=
  if maxSnapshotBytes < raw.length then .error .limit
  else
    match ((S.fromSlice raw).bind (WireSnapshot.codec S.ofInt).read).bind
        (materialize S.ofInt) with
    | none => .error .invalid
    | some s =>
      match validate parseTime s with
      | .error e => .error e
      | .ok _ => .ok s

end

/-! ### Reading back

A snapshot that passes has finite doubles and not too many accounts, so its JSON is read as it was
written. -/

section

variable {parseTime : String → Option DateTime} {ofInt : ℤ → UInt64}

/-- The doubles of a snapshot are finite and its accounts are not too many. -/
structure Sendable (s : Snapshot) : Prop where
  burn : s.burnRatePerMin.isFinite = true
  rolling : s.rolling5h.usedPct.isFinite = true
  weekly : s.weekly.usedPct.isFinite = true
  length : s.accounts.length ≤ maxAccounts
  fiveHour : ∀ a ∈ s.accounts, ∀ w, a.fiveHour = some w → w.usedPct.isFinite = true
  sevenDay : ∀ a ∈ s.accounts, ∀ w, a.sevenDay = some w → w.usedPct.isFinite = true
  tokens : ∀ a ∈ s.accounts, ∀ x, a.tokensPerHour = some x → x.isFinite = true

theorem ratio_finite {x : F64} (h : ratio x = true) : x.isFinite = true := by
  unfold ratio at h
  exact (Bool.and_eq_true _ _ ▸ h).1

theorem window_finite {w : Window} (h : window w = true) : w.usedPct.isFinite = true := by
  unfold window at h
  simp only [Bool.and_eq_true] at h
  exact ratio_finite h.1.1

theorem accountWindow_finite {x : Option AccountWindow} (h : accountWindow x = true)
    {w : AccountWindow} (hx : x = some w) : w.usedPct.isFinite = true := by
  unfold accountWindow at h
  rw [hx, Option.all_some, Bool.and_eq_true] at h
  exact ratio_finite h.1

/-- What `validate` decides. -/
theorem checks_ok {inner : Snapshot → Except Error Unit} {s : Snapshot} :
    checks parseTime inner s = .ok () ↔
      fields parseTime s = true ∧
      (∀ p ∈ s.sources, source s p.1 p.2 = true ∧ inner p.2 = .ok ()) ∧
      ∀ p ∈ s.accounts.zipIdx, account s.provider (s.accounts.take p.2) p.1 = true := by
  unfold checks
  rw [allOk_ok]
  simp only [List.mem_cons, List.mem_append, List.mem_map]
  constructor
  · intro h
    refine ⟨require_ok.mp (h _ (.inl rfl)), fun p hp => ?_,
      fun p hp => require_ok.mp (h _ (.inr (.inr ⟨p, hp, rfl⟩)))⟩
    have hp' := allOk_ok.mp (h _ (.inr (.inl ⟨p, hp, rfl⟩)))
    simp only [List.mem_cons, List.not_mem_nil, or_false, forall_eq_or_imp, forall_eq,
      require_ok] at hp'
    exact hp'
  · rintro ⟨hfields, hsources, haccounts⟩ c (rfl | ⟨p, hp, rfl⟩ | ⟨p, hp, rfl⟩)
    · exact require_ok.mpr hfields
    · refine allOk_ok.mpr ?_
      simp only [List.mem_cons, List.not_mem_nil, or_false, forall_eq_or_imp, forall_eq,
        require_ok]
      exact hsources p hp
    · exact require_ok.mpr (haccounts p hp)

/-- A snapshot that passed the checks can be sent. -/
theorem checks_sendable {inner : Snapshot → Except Error Unit} {s : Snapshot}
    (h : checks parseTime inner s = .ok ()) : Sendable s := by
  obtain ⟨hfields, -, haccounts⟩ := checks_ok.mp h
  unfold fields at hfields
  simp only [Bool.and_eq_true, decide_eq_true_eq] at hfields
  obtain ⟨⟨⟨⟨⟨⟨⟨⟨⟨⟨⟨⟨⟨⟨⟨⟨⟨⟨⟨⟨⟨-, -⟩, -⟩, -⟩, -⟩, hburn⟩, -⟩, -⟩, -⟩, -⟩, hrolling⟩,
    hweekly⟩, -⟩, -⟩, -⟩, -⟩, -⟩, -⟩, -⟩, -⟩, hlength⟩, -⟩ := hfields
  have hall : ∀ a ∈ s.accounts, accountWindow a.fiveHour = true ∧
      accountWindow a.sevenDay = true ∧
      (a.tokensPerHour.all fun n => n.isFinite && !n.isNegative) = true := by
    intro a ha
    obtain ⟨i, hi, rfl⟩ := List.getElem_of_mem ha
    have hp := haccounts (s.accounts[i], i) (by simp [List.mem_zipIdx_iff_getElem?])
    unfold account at hp
    simp only [Bool.and_eq_true] at hp
    obtain ⟨⟨⟨⟨⟨⟨⟨_, h5⟩, h7⟩, ht⟩, _⟩, _⟩, _⟩, _⟩ := hp
    exact ⟨h5, h7, ht⟩
  refine ⟨hburn, window_finite hrolling, window_finite hweekly, hlength,
    fun a ha w hw => accountWindow_finite (hall a ha).1 hw,
    fun a ha w hw => accountWindow_finite (hall a ha).2.1 hw, fun a ha x hx => ?_⟩
  have ht := (hall a ha).2.2
  rw [hx, Option.all_some, Bool.and_eq_true] at ht
  exact ht.1

theorem accountsCodec_reads {l : List Account} (hlen : l.length ≤ maxAccounts)
    (h : ∀ a ∈ l, (Account.codec ofInt).Reads a) : (accountsCodec ofInt).Reads l := by
  show (if (l.map (Account.codec ofInt).write).length ≤ maxAccounts then
    (l.map (Account.codec ofInt).write).mapM (Account.codec ofInt).read else none) = some l
  rw [List.length_map, if_pos hlen]
  exact Codec.list_reads h

/-- Sources in order are read back. -/
theorem readSources_eq {out entries : List (String × Json)}
    (hsorted : OrderedMap.Sorted (out ++ entries)) (hlen : (out ++ entries).length ≤ 2)
    (hnames : ∀ e ∈ entries, len e.1 ≤ 16) : readSources out entries = some (out ++ entries) := by
  induction entries generalizing out with
  | nil => rw [readSources, List.append_nil]
  | cons e entries ih =>
    obtain ⟨key, j⟩ := e
    have hlast : ∀ x ∈ out, x.1 < key := fun x hx =>
      (List.pairwise_append.mp hsorted).2.2 x hx (key, j) List.mem_cons_self
    have hkey : len key ≤ 16 := hnames (key, j) List.mem_cons_self
    have hany : (out.any fun e => e.1 == key) = false := by
      rw [List.any_eq_false]
      intro x hx
      rw [beq_iff_eq]
      exact (hlast x hx).ne
    have hroom : out.length ≠ 2 := by
      rw [List.length_append, List.length_cons] at hlen
      omega
    have happend : out ++ (key, j) :: entries = (out ++ [(key, j)]) ++ entries := by
      rw [List.append_assoc, List.singleton_append]
    rw [readSources, hany, decide_eq_false hroom, decide_eq_false (Nat.not_lt_of_le hkey),
      OrderedMap.insert_of_last hlast, happend]
    exact ih (happend ▸ hsorted) (happend ▸ hlen) fun e he => hnames e (List.mem_cons_of_mem _ he)

/-- The wire form of a snapshot is read back when its sources are. -/
theorem wire_reads {s : Snapshot} (h : Sendable s) {sources : List (String × Json)}
    (hsources : sourcesCodec.Reads sources) :
    (WireSnapshot.codec ofInt).Reads (s.wire sources) := by
  have haccounts : (Fields.skipped "accounts" (accountsCodec ofInt) [] List.isEmpty).Reads
      s.accounts := by
    rw [Fields.skipped_reads]
    split
    · rename_i hnil
      exact (List.isEmpty_iff.mp hnil).symm
    · exact accountsCodec_reads h.length fun a ha =>
        Account.codec_reads (h.fiveHour a ha) (h.sevenDay a ha) (h.tokens a ha)
  have hsources' : (Fields.skipped "sources" sourcesCodec [] List.isEmpty).Reads sources := by
    rw [Fields.skipped_reads]
    split
    · rename_i hnil
      exact (List.isEmpty_iff.mp hnil).symm
    · exact hsources
  have hprovider : Provider.codec.option.Reads (some s.provider) := by
    refine (Codec.option_reads_some _).mpr ⟨?_, Provider.codec_reads _⟩
    cases s.provider <;> exact Json.noConfusion
  unfold WireSnapshot.codec
  rw [Codec.object_reads (by
    show ["schema", "seq", "generated_at_utc", "provider", "plan_type", "burn_rate_per_min",
      "burn_state", "today_total_tokens", "today_sessions", "rolling_5h", "weekly",
      "rolling_5h_observed", "weekly_observed", "status", "accounts", "accounts_updated_at",
      "sources"].Nodup
    decide)]
  refine Fields.map_reads rfl ?_
  simp [Snapshot.wire, haccounts, hsources', hprovider, (F64.codec_reads h.burn).2,
    Window.codec_reads h.rolling, Window.codec_reads h.weekly, string_option_reads]

theorem sourcesJson_eq (l : List (String × Snapshot)) :
    sourcesJson ofInt l = l.map fun p => (p.1, p.2.json ofInt) := by
  induction l with
  | nil => rw [sourcesJson, List.map_nil]
  | cons p l ih =>
    obtain ⟨name, child⟩ := p
    rw [sourcesJson, ih, List.map_cons]

theorem Snapshot.json_eq (s : Snapshot) :
    s.json ofInt = (WireSnapshot.codec ofInt).write (s.wire (sourcesJson ofInt s.sources)) := by
  obtain ⟨⟩ := s
  rw [Snapshot.json]
  rfl

theorem Snapshot.wire_snapshot (s : Snapshot) (sources : List (String × Json)) :
    (s.wire sources).snapshot s.sources = some s := by
  obtain ⟨⟩ := s
  rfl

/-- A source is read back. -/
theorem read_child {child : Snapshot} (h : Sendable child) (hnil : child.sources = []) :
    ((WireSnapshot.codec ofInt).read (child.json ofInt)).bind materializeChild = some child := by
  have hreads : (WireSnapshot.codec ofInt).Reads (child.wire []) := wire_reads h rfl
  have hread : (WireSnapshot.codec ofInt).read (child.json ofInt) = some (child.wire []) := by
    rw [Snapshot.json_eq, hnil, sourcesJson]
    exact hreads
  rw [hread, Option.bind_some, materializeChild]
  show (child.wire []).snapshot [] = some child
  rw [← hnil]
  exact Snapshot.wire_snapshot child _

/-- Only short names are allowed. -/
theorem sourceAllowed_len {provider : Provider} {name quota : String}
    (h : sourceAllowed provider name quota = true) : len name ≤ 16 := by
  have hname : name = "cli" ∨ name = "cswap" ∨ name = "codex-lb" := by
    unfold sourceAllowed at h
    simp only [Bool.or_eq_true, Bool.and_eq_true, beq_iff_eq] at h
    rcases h with (⟨rfl, -⟩ | ⟨⟨-, rfl⟩, -⟩) | ⟨⟨-, rfl⟩, -⟩
    · exact .inl rfl
    · exact .inr (.inl rfl)
    · exact .inr (.inr rfl)
  rcases hname with rfl | rfl | rfl <;> decide

/-- **A valid snapshot is read back** from its JSON form. -/
theorem read_json {s : Snapshot} (h : validate parseTime s = .ok ())
    (hsorted : OrderedMap.Sorted s.sources) :
    ((WireSnapshot.codec ofInt).read (s.json ofInt)).bind (materialize ofInt) = some s := by
  have hsend := checks_sendable h
  obtain ⟨hfields, hsources, -⟩ := checks_ok.mp h
  have hlen : s.sources.length ≤ 2 := by
    unfold fields at hfields
    simp only [Bool.and_eq_true, decide_eq_true_eq] at hfields
    exact hfields.2
  -- a source has no sources of its own, so that reading it back does not recurse further
  have hchild : ∀ p ∈ s.sources, p.2.sources = [] ∧ Sendable p.2 ∧ len p.1 ≤ 16 := by
    intro p hp
    obtain ⟨hsource, hinner⟩ := hsources p hp
    unfold source at hsource
    simp only [Bool.and_eq_true] at hsource
    exact ⟨List.isEmpty_iff.mp hsource.2, checks_sendable hinner, sourceAllowed_len hsource.1.1⟩
  -- the names are sorted and at most two, as `readSources` wants them
  have hread : sourcesCodec.Reads (sourcesJson ofInt s.sources) := by
    show readSources [] (sourcesJson ofInt s.sources) = some (sourcesJson ofInt s.sources)
    rw [sourcesJson_eq]
    refine readSources_eq ?_ ?_ ?_
    · exact List.pairwise_map.mpr hsorted
    · rw [List.nil_append, List.length_map]
      exact hlen
    · intro e he
      obtain ⟨p, hp, rfl⟩ := List.mem_map.mp he
      exact (hchild p hp).2.2
  have hwire : (WireSnapshot.codec ofInt).read (s.json ofInt)
      = some (s.wire (sourcesJson ofInt s.sources)) := by
    rw [Snapshot.json_eq]
    exact wire_reads hsend hread
  -- each source is read back on its own
  have hchildren : ∀ l : List (String × Snapshot), (∀ p ∈ l, p ∈ s.sources) →
      ((l.map fun p => (p.1, p.2.json ofInt)).mapM fun e =>
        (((WireSnapshot.codec ofInt).read e.2).bind materializeChild).map (Prod.mk e.1))
        = some l := by
    intro l hl
    induction l with
    | nil => rfl
    | cons p l ih =>
      obtain ⟨hnil, hp, -⟩ := hchild p (hl p List.mem_cons_self)
      rw [List.map_cons, List.mapM_cons, read_child hp hnil,
        ih fun q hq => hl q (List.mem_cons_of_mem _ hq)]
      rfl
  have hmapM := hchildren s.sources fun _ hp => hp
  rw [← sourcesJson_eq] at hmapM
  rw [hwire, Option.bind_some, materialize]
  exact (congrArg (Option.bind · _) hmapM).trans (Snapshot.wire_snapshot s _)

/-- **What is sent arrives** as it is. -/
theorem decode_encode {S : Serde} {s : Snapshot} {raw : List UInt8}
    (h : encode parseTime S s = .ok raw) (hsorted : OrderedMap.Sorted s.sources)
    (hreads : S.Reads (s.json S.ofInt)) :
    raw = S.text (s.json S.ofInt) ∧ raw.length ≤ maxSnapshotBytes ∧
      decode parseTime S raw = .ok s := by
  unfold encode at h
  split at h
  · cases h
  · rename_i hvalid
    split at h
    · cases h
    · rename_i hlen
      cases h
      refine ⟨rfl, Nat.le_of_not_lt hlen, ?_⟩
      unfold decode
      rw [if_neg hlen, hreads.fromSlice, Option.bind_some, read_json hvalid hsorted]
      dsimp only
      rw [hvalid]

end

end Hmux.Usage
