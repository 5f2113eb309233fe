import Hmux.Protocol.Scan

namespace Hmux.Protocol

open Lib.Proto Pb

/-!
# What the preflight decides

`scan` accepts exactly the frames that the generated decoder reads as an unambiguous tree
(`Clean`) within the limits of the table (`Fits`) and within the budget (`cost`).

* `field_agrees` — the table of the preflight and the generated descriptor agree;
* `scanLevels_sound` — an accepted frame is read as such a tree;
* `scanLevels_complete` — the writer's form of such a tree is accepted.
-/

/-! ### The two tables

The preflight has a table of its own, written by hand beside the generated one; here the two are
compared row by row. -/

/-- The message a schema stands for. -/
def Schema.name : Schema → Name
  | .envelope => .envelope
  | .hello => .hello
  | .request => .request
  | .response => .response
  | .open => .terminalOpen
  | .data _ => .data
  | .resize => .resize
  | .reference => .reference
  | .ack => .ack
  | .catalog => .catalogSnapshot
  | .catalogSessions => .catalogSessions
  | .catalogSession => .catalogSession
  | .catalogStrings _ => .catalogStrings
  | .catalogMetrics => .catalogHostMetrics
  | .workflowSummary => .catalogWorkflowSummary
  | .workflows => .catalogWorkflows
  | .workflow => .catalogWorkflow
  | .workflowNodes => .catalogWorkflowNodes
  | .workflowNode => .catalogWorkflowNode
  | .usage _ => .usageSnapshot
  | .usageSource => .usageSource
  | .usageWindow => .usageWindow
  | .usageAccountWindow => .usageAccountWindow
  | .usageStatus => .usageStatus
  | .usageAccount => .usageAccount
  | .empty => .empty
  | .completion => .completion
  | .uploadStart => .uploadStart
  | .uploadHeader => .uploadHeader
  | .file => .fileHeader
  | .session => .session
  | .createRequest => .createRequest
  | .aliasRequest => .aliasRequest
  | .hiddenRequest => .hiddenRequest
  | .workspaceRequest => .workspaceRequest
  | .workspaceChange => .workspaceChange
  | .providerKeyRequest => .providerKeyRequest
  | .providerJobRequest => .providerJobRequest
  | .profile => .profile
  | .profilesResult => .profilesResult
  | .createdResult => .createdResult
  | .conversationResult => .conversationResult
  | .conversationMessages => .conversationMessages
  | .conversationMessage => .conversationMessage
  | .workspaceSnapshot => .workspaceSnapshot
  | .providerResult => .providerResult
  | .providerStatuses => .providerStatuses
  | .providerStatus => .providerStatus
  | .providerJobStatus => .providerJobStatus
  | .stageResult => .stageResult
  | .stageFile => .stageFile

/-- The kind a field of the table stands for. -/
def Field.kind : Field → Kind Name
  | .uint32 => .uint32
  | .uint64 => .uint64
  | .bool => .bool
  | .double => .double
  | .int64 => .int64
  | .enum => .enum
  | .text _ => .text
  | .blob _ => .blob
  | .nested schema => .message schema.name

/-- The messages with a `oneof`, whose tags are those from ten on. -/
def Schema.hasOneof : Schema → Bool
  | .envelope | .request | .response => true
  | _ => false

/-- A row of the table fits a row of the descriptor: the same kind, a limit of one unless the
    field is repeated, and variants where the preflight counts them. -/
def RowAgrees (schema : Schema) (tag : ℕ) (kind : Field) (limit : ℕ) : Prop :=
  tag < 37 ∧ ∃ label, descriptor schema.name tag = some ⟨kind.kind, label⟩ ∧
    (label == .repeated || limit == 1) = true ∧
    (label == .oneof) = (schema.hasOneof && decide (10 ≤ tag))

/-- Every row of the envelope's table is a field of its message. -/
theorem envelopeField_agrees {tag : ℕ} {kind : Field} {limit : ℕ}
    (h : envelopeField tag = some (kind, limit)) : RowAgrees .envelope tag kind limit := by
  unfold envelopeField at h
  split at h <;> cases h <;> exact ⟨by decide, _, rfl, rfl, rfl⟩

/-- So is every row of a usage snapshot's. -/
theorem usageField_agrees {child : Bool} {tag : ℕ} {kind : Field} {limit : ℕ}
    (h : usageField child tag = some (kind, limit)) : RowAgrees (.usage child) tag kind limit := by
  unfold usageField at h
  split at h
  case h_17 => split at h <;> cases h; exact ⟨by decide, _, rfl, rfl, rfl⟩
  all_goals cases h
  all_goals exact ⟨by decide, _, rfl, rfl, rfl⟩

/-- **The two tables agree.** -/
theorem field_agrees {schema : Schema} {tag : ℕ} {kind : Field} {limit : ℕ}
    (h : field schema tag = some (kind, limit)) : RowAgrees schema tag kind limit := by
  cases schema with
  | envelope => exact envelopeField_agrees h
  | usage child => exact usageField_agrees h
  | empty => cases h
  | _ =>
    dsimp only [field] at h
    split at h <;> cases h <;> exact ⟨by decide, _, rfl, rfl, rfl⟩

/-! ### Limits and cost

What the table and the budget say about a tree, without a walk. -/

/-- Texts, bytes and nested messages within their limits. -/
def Within (nested : Schema → Wire → Prop) : Field → Val → Prop
  | .text max, .bytes b => b.length ≤ max
  | .blob max, .bytes b => b.length ≤ max
  | .nested schema, .msg w => nested schema w
  | _, _ => True

/-- **Within the limits of the table**, at each of at most `levels` levels: no field occurs
    more often or is longer than its row says. -/
def Fits : ℕ → Schema → Wire → Prop
  | 0, _, _ => False
  | levels + 1, schema, w =>
    (∀ max, schema.maxBytes = some max → (encodeWire w).length ≤ max) ∧
    ∀ e ∈ w, ∃ kind limit, field schema e.1 = some (kind, limit) ∧
      countTag e.1 w ≤ limit ∧ Within (Fits levels) kind e.2

variable (L : Layout)

/-- What is charged for a value. -/
def valCost (nested : Schema → Wire → ℕ) : Field → ℕ → Val → ℕ
  | .text _, limit, .bytes b => b.length + if 1 < limit then 2 * L.sizeOfString else 0
  | .nested schema, _, .msg w => nested schema w
  | _, _, _ => 0

/-- What is charged for a field. -/
def entryCost (nested : Schema → Wire → ℕ) (schema : Schema) (e : ℕ × Val) : ℕ :=
  match field schema e.1 with
  | none => 0
  | some (kind, limit) => valCost L nested kind limit e.2

/-- What is charged for a message of at most `levels` levels. -/
def cost : ℕ → Schema → Wire → ℕ
  | 0, _, _ => 0
  | levels + 1, schema, w =>
    schema.charge L + (w.map (entryCost L (cost levels) schema)).sum

/-- A charge leaves the rest of the budget. -/
theorem charge_ok {budget bytes budget' : ℕ} :
    charge budget bytes = .ok budget' ↔ budget = budget' + bytes := by
  unfold charge
  split
  · simp only [reduceCtorEq, false_iff]
    omega
  · simp only [Except.ok.injEq]
    omega

/-! ### Accepted frames

By induction on the levels, and for one level on its fields: what was counted so far is what was
read so far. -/

section

variable {L} {scan : Schema → List UInt8 → ℕ → Except Error ℕ}
  {read : Name → List UInt8 → Option Wire} {P : Name → Wire → Prop} {Q : Schema → Wire → Prop}
  {c : Schema → Wire → ℕ}

/-- What one level may assume of the levels below. -/
def Sound (scan : Schema → List UInt8 → ℕ → Except Error ℕ) (read : Name → List UInt8 → Option Wire)
    (P : Name → Wire → Prop) (Q : Schema → Wire → Prop) (c : Schema → Wire → ℕ) : Prop :=
  ∀ schema raw budget budget', scan schema raw budget = .ok budget' →
    ∃ w, read schema.name raw = some w ∧ P schema.name w ∧ Q schema w ∧
      budget = budget' + c schema w ∧ (encodeWire w).length ≤ raw.length

/-- A number that the scan takes is one of its field. -/
theorem scanVarint_sound {kind : Field} {wire : WireType} {raw rest : List UInt8}
    {budget budget' : ℕ}
    (h : (if wire ≠ .varint then .error .malformed
      else match decodeVarint raw with
        | none => .error .malformed
        | some (value, rest) => if kind.holds value then .ok (rest, budget) else .error .fields)
      = (.ok (rest, budget') : Except Error (List UInt8 × ℕ))) :
    wire = .varint ∧ budget = budget' ∧ ∃ value, decodeVarint raw = some (value, rest) ∧
      kind.holds value = true ∧ value < 2 ^ 64 := by
  split at h
  · cases h
  rename_i hwire
  split at h
  · cases h
  rename_i value rest' hread
  split at h
  · rename_i hholds
    injection h with h
    injection h with hrest hbudget
    subst hrest hbudget
    exact ⟨not_not.mp hwire, rfl, value, hread, hholds, (decodeVarint_some hread).1⟩
  · cases h

/-- The value of an accepted field is one the decoder reads, in range and within limits. -/
theorem scanValue_sound (hscan : Sound scan read P Q c) {kind : Field} {limit : ℕ}
    {wire : WireType} {raw rest : List UInt8} {budget budget' : ℕ}
    (h : scanValue L scan kind limit wire raw budget = .ok (rest, budget')) :
    ∃ v, readVal read kind.kind wire raw = some (v, rest) ∧ v.InRange P kind.kind ∧
      Within Q kind v ∧ budget = budget' + valCost L c kind limit v := by
  cases kind with
  -- numbers: the scan bounds them as their field does
  | uint32 =>
    obtain ⟨rfl, rfl, n, hread, hholds, -⟩ := scanVarint_sound h
    have hlt : n < 2 ^ 32 := of_decide_eq_true hholds
    exact ⟨.varint n, by simp [readVal, Field.kind, hread], hlt, trivial, rfl⟩
  | uint64 =>
    obtain ⟨rfl, rfl, n, hread, -, hlt⟩ := scanVarint_sound h
    exact ⟨.varint n, by simp [readVal, Field.kind, hread], hlt, trivial, rfl⟩
  | int64 =>
    obtain ⟨rfl, rfl, n, hread, -, hlt⟩ := scanVarint_sound h
    exact ⟨.varint n, by simp [readVal, Field.kind, hread], hlt, trivial, rfl⟩
  | enum =>
    obtain ⟨rfl, rfl, n, hread, hholds, -⟩ := scanVarint_sound h
    have hlt : n < 2 ^ 31 := of_decide_eq_true hholds
    exact ⟨.varint n, by simp [readVal, Field.kind, hread], hlt, trivial, rfl⟩
  | bool =>
    obtain ⟨rfl, rfl, n, hread, hholds, -⟩ := scanVarint_sound h
    have hlt : n < 2 := of_decide_eq_true hholds
    exact ⟨.varint n, by simp [readVal, Field.kind, hread], hlt, trivial, rfl⟩
  -- doubles have eight bytes
  | double =>
    dsimp only [scanValue] at h
    split at h
    · cases h
    rename_i hok
    rw [not_or, not_not] at hok
    obtain ⟨rfl, hlen⟩ := hok
    injection h with h
    injection h with hrest hbudget
    subst hrest hbudget
    refine ⟨.fixed64 (fixedValue (raw.take 8)), ?_, ?_, trivial, rfl⟩
    · simp only [readVal, Field.kind, if_neg hlen]
    · have hlt := fixedValue_lt (raw.take 8)
      rw [List.length_take, Nat.min_eq_left (by omega)] at hlt
      exact lt_of_lt_of_le hlt (by norm_num)
  -- a text is charged by its length
  | text max =>
    dsimp only [scanValue] at h
    split at h
    · cases h
    rename_i hwire
    split at h
    · cases h
    rename_i part rest' hread
    split at h
    · cases h
    rename_i budget₁ hcharge
    split at h
    · cases h
    rename_i hok
    injection h with h
    injection h with hrest hbudget
    subst hrest hbudget
    rw [not_or, not_lt, Bool.not_eq_true, Option.isNone_eq_false_iff] at hok
    obtain ⟨hmax, htext⟩ := hok
    obtain ⟨s, hs⟩ := Option.isSome_iff_exists.mp htext
    refine ⟨.bytes part, ?_, ⟨(readBytes_some hread).1, s, utf8_eq_some.mp hs⟩, hmax,
      charge_ok.mp hcharge⟩
    rw [not_not.mp hwire]
    simp [readVal, Field.kind, hread, hs]
  -- bytes are bounded, but not charged
  | blob max =>
    dsimp only [scanValue] at h
    split at h
    · cases h
    rename_i hwire
    split at h
    · cases h
    rename_i part rest' hread
    split at h
    · cases h
    rename_i hmax
    injection h with h
    injection h with hrest hbudget
    subst hrest hbudget
    refine ⟨.bytes part, ?_, (readBytes_some hread).1, not_lt.mp hmax, rfl⟩
    rw [not_not.mp hwire]
    simp [readVal, Field.kind, hread]
  -- a message is scanned with the budget that is left
  | nested schema =>
    dsimp only [scanValue] at h
    split at h
    · cases h
    rename_i hwire
    split at h
    · cases h
    rename_i part rest' hread
    split at h
    · cases h
    rename_i budget₁ hnested
    injection h with h
    injection h with hrest hbudget
    subst hrest hbudget
    obtain ⟨w, hw, hP, hQ, hcost, hlen⟩ := hscan _ _ _ _ hnested
    refine ⟨.msg w, ?_, ⟨lt_of_le_of_lt hlen (readBytes_some hread).1, hP⟩, hQ, hcost⟩
    rw [not_not.mp hwire]
    simp [readVal, Field.kind, hread, hw]

/-- What was counted is what was read. -/
structure Tracks (schema : Schema) (seen : Seen) (u : Wire) : Prop where
  counts : ∀ tag, seen.counts tag = countTag tag u
  bodies : schema = .envelope → seen.bodies = u.countP fun e => 10 ≤ e.1
  oneof : schema = .request ∨ schema = .response → seen.oneof = u.countP fun e => 10 ≤ e.1

/-- Before the first field nothing was seen. -/
theorem tracks_empty (schema : Schema) : Tracks schema .empty [] :=
  ⟨fun _ => rfl, fun _ => rfl, fun _ => rfl⟩

/-- Fields are counted one after the other. -/
theorem countTag_append (tag : ℕ) (u w : Wire) :
    countTag tag (u ++ w) = countTag tag u + countTag tag w := List.countP_append ..

/-- A single field counts for its own tag. -/
theorem countTag_singleton (tag tag' : ℕ) (v : Val) :
    countTag tag [(tag', v)] = if tag' = tag then 1 else 0 := by
  rw [countTag, List.countP_singleton]
  simp

/-- How often a variant was given. -/
def variants (schema : Schema) (w : Wire) : ℕ :=
  w.countP fun e => schema.hasOneof && decide (10 ≤ e.1)

/-- Three messages have variants. -/
theorem hasOneof_iff {schema : Schema} :
    schema.hasOneof = true ↔ schema = .envelope ∨ schema = .request ∨ schema = .response := by
  cases schema <;> simp [Schema.hasOneof]

/-- Their tags are those from ten on. -/
theorem variants_eq {schema : Schema} (h : schema.hasOneof = true) (w : Wire) :
    variants schema w = w.countP fun e => 10 ≤ e.1 := by
  simp only [variants, h, Bool.true_and]

/-- Variants are counted one after the other. -/
theorem variants_append (schema : Schema) (u w : Wire) :
    variants schema (u ++ w) = variants schema u + variants schema w := List.countP_append ..

/-- A single variant counts once. -/
theorem variants_singleton (schema : Schema) (tag : ℕ) (v : Val) :
    variants schema [(tag, v)] = if schema.hasOneof = true ∧ 10 ≤ tag then 1 else 0 := by
  rw [variants, List.countP_singleton]
  simp

/-- Counting goes on. -/
theorem Tracks.next {schema : Schema} {seen seen' : Seen} {u : Wire} (ht : Tracks schema seen u)
    {tag limit : ℕ} (h : seen.next schema tag limit = .ok seen') (v : Val) :
    Tracks schema seen' (u ++ [(tag, v)]) := by
  unfold Seen.next at h
  split at h
  · cases h
  split at h
  · cases h
  split at h
  · cases h
  split at h
  · cases h
  injection h with h
  subst h
  constructor
  · intro t
    rw [countTag_append, countTag_singleton, ← ht.counts]
    dsimp only
    by_cases heq : tag = t
    · subst heq
      rw [Function.update_self, if_pos rfl]
    · rw [Function.update_of_ne (Ne.symm heq), if_neg heq, Nat.add_zero]
  · intro hs
    rw [List.countP_append, List.countP_singleton, ← ht.bodies hs]
    by_cases htag : 10 ≤ tag <;> simp [hs, htag]
  · intro hs
    rw [List.countP_append, List.countP_singleton, ← ht.oneof hs]
    by_cases htag : 10 ≤ tag <;> simp [hs, htag]

/-- One more field may come exactly when its limit and the variants allow it. -/
theorem Tracks.next_ok {schema : Schema} {seen : Seen} {u : Wire} (ht : Tracks schema seen u)
    {tag limit : ℕ} (v : Val) :
    (∃ seen', seen.next schema tag limit = .ok seen') ↔
      tag < 37 ∧ countTag tag (u ++ [(tag, v)]) ≤ limit ∧
        (schema.hasOneof = true → 10 ≤ tag → variants schema (u ++ [(tag, v)]) ≤ 1) := by
  have hcount : countTag tag (u ++ [(tag, v)]) = seen.counts tag + 1 := by
    rw [countTag_append, countTag_singleton, if_pos rfl, ht.counts]
  -- the envelope counts its bodies, the requests and responses their variants
  have hbodies : schema = .envelope → 10 ≤ tag →
      variants schema (u ++ [(tag, v)]) = seen.bodies + 1 := by
    intro hs htag
    have hone : schema.hasOneof = true := hasOneof_iff.mpr (Or.inl hs)
    rw [variants_append, variants_singleton, if_pos ⟨hone, htag⟩, variants_eq hone, ht.bodies hs]
  have honeof : schema = .request ∨ schema = .response → 10 ≤ tag →
      variants schema (u ++ [(tag, v)]) = seen.oneof + 1 := by
    intro hs htag
    have hone : schema.hasOneof = true := hasOneof_iff.mpr (Or.inr hs)
    rw [variants_append, variants_singleton, if_pos ⟨hone, htag⟩, variants_eq hone, ht.oneof hs]
  unfold Seen.next
  constructor
  · rintro ⟨seen', h⟩
    split at h
    · cases h
    split at h
    · cases h
    split at h
    · cases h
    split at h
    · cases h
    rename_i h37 hlimit hbody hone
    refine ⟨by omega, by omega, fun hs htag => ?_⟩
    rcases hasOneof_iff.mp hs with hs | hs
    · rw [hbodies hs htag]
      by_contra hgt
      exact hbody ⟨hs, htag, by omega⟩
    · rw [honeof hs htag]
      by_contra hgt
      exact hone ⟨hs, htag, by omega⟩
  · rintro ⟨h37, hlimit, hvariants⟩
    rw [if_neg (by omega), if_neg (by omega), if_neg, if_neg]
    · exact ⟨_, rfl⟩
    · rintro ⟨hs, htag, hgt⟩
      have := hvariants (hasOneof_iff.mpr (Or.inr hs)) htag
      rw [honeof hs htag] at this
      omega
    · rintro ⟨hs, htag, hgt⟩
      have := hvariants (hasOneof_iff.mpr (Or.inl hs)) htag
      rw [hbodies hs htag] at this
      omega

/-- **Step lemma.** The fields of an accepted message, after those of `u`. -/
theorem scanFields_sound (hscan : Sound scan read P Q c) {schema : Schema} {fuel : ℕ}
    {seen : Seen} {u : Wire} (ht : Tracks schema seen u) (hu : variants schema u ≤ 1)
    {raw : List UInt8} {budget budget' : ℕ}
    (h : scanFields L scan schema fuel seen raw budget = .ok budget') :
    ∃ w, readFields descriptor read schema.name fuel raw = some w ∧
      (∀ e ∈ w, ∃ kind limit, 0 < e.1 ∧ field schema e.1 = some (kind, limit) ∧
        countTag e.1 (u ++ w) ≤ limit ∧ e.2.InRange P kind.kind ∧ Within Q kind e.2) ∧
      variants schema (u ++ w) ≤ 1 ∧
      budget = budget' + (w.map (entryCost L c schema)).sum := by
  -- a field is scanned with the ones before it counted in `seen`
  induction fuel generalizing seen u raw budget with
  | zero =>
    cases raw with
    | nil =>
      injection h with h
      subst h
      exact ⟨[], rfl, fun _ he => absurd he List.not_mem_nil, by rwa [List.append_nil], rfl⟩
    | cons b raw => cases h
  | succ fuel ih =>
    cases raw with
    | nil =>
      injection h with h
      subst h
      exact ⟨[], rfl, fun _ he => absurd he List.not_mem_nil, by rwa [List.append_nil], rfl⟩
    | cons b raw =>
      rw [scanFields] at h
      split at h
      · cases h
      rename_i tag wire rest hkey
      split at h
      · cases h
      rename_i kind limit hfield
      split at h
      · cases h
      rename_i seen' hnext
      split at h
      · cases h
      rename_i rest' budget₁ hvalue
      obtain ⟨v, hread, hrange, hwithin, hcost⟩ := scanValue_sound hscan hvalue
      obtain ⟨h37, hlimit, hvariants⟩ := (ht.next_ok v).mp ⟨seen', hnext⟩
      -- the new variant may be the first one
      have hone : variants schema (u ++ [(tag, v)]) ≤ 1 := by
        by_cases hs : schema.hasOneof = true ∧ 10 ≤ tag
        · exact hvariants hs.1 hs.2
        · rw [variants_append, variants_singleton, if_neg hs]
          exact hu
      obtain ⟨w, hw, hall, hvar, hsum⟩ := ih (ht.next hnext v) hone h
      rw [List.append_assoc, List.singleton_append] at hvar
      refine ⟨(tag, v) :: w, ?_, ?_, hvar, ?_⟩
      · obtain ⟨-, label, hdesc, -⟩ := field_agrees hfield
        rw [readFields, hkey]
        dsimp only
        rw [hdesc]
        dsimp only
        rw [hread]
        dsimp only
        rw [hw]
        rfl
      · intro e he
        -- counts are over all fields, those before and those after
        have htail : ∀ e ∈ w, ∃ kind limit, 0 < e.1 ∧ field schema e.1 = some (kind, limit) ∧
            countTag e.1 (u ++ (tag, v) :: w) ≤ limit ∧ e.2.InRange P kind.kind ∧
            Within Q kind e.2 := by
          intro e he
          have := hall e he
          rwa [List.append_assoc, List.singleton_append] at this
        rcases List.mem_cons.mp he with rfl | he
        · refine ⟨kind, limit, (decodeKey_some hkey).1, hfield, ?_, hrange, hwithin⟩
          -- the count of the last field with this tag is the largest
          by_cases hlater : ∃ e' ∈ w, e'.1 = tag
          · obtain ⟨e', he', heq⟩ := hlater
            obtain ⟨kind', limit', -, hfield', hcount', -⟩ := htail e' he'
            rw [heq, hfield] at hfield'
            cases hfield'
            rwa [heq] at hcount'
          · have hnone : countTag tag w = 0 := by
              rw [countTag, List.countP_eq_zero]
              intro e' he' heq
              exact hlater ⟨e', he', of_decide_eq_true heq⟩
            have hsplit : u ++ (tag, v) :: w = (u ++ [(tag, v)]) ++ w := by
              rw [List.append_assoc, List.singleton_append]
            rw [hsplit, countTag_append _ _ w, hnone, Nat.add_zero]
            exact hlimit
        · exact htail e he
      · have hentry : entryCost L c schema (tag, v) = valCost L c kind limit v := by
          rw [entryCost, hfield]
        rw [List.map_cons, List.sum_cons, hentry]
        omega

/-- A tag of the table is a variant exactly where the descriptor says so. -/
theorem isOneof_eq {schema : Schema} {tag : ℕ} {kind : Field} {limit : ℕ}
    (h : field schema tag = some (kind, limit)) :
    isOneof descriptor schema.name tag = (schema.hasOneof && decide (10 ≤ tag)) := by
  obtain ⟨-, label, hdesc, -, hone⟩ := field_agrees h
  rw [isOneof, hdesc, ← hone]
  cases label <;> rfl

/-- What the scan counts are the variants of the descriptor. -/
theorem countP_isOneof {schema : Schema} {w : Wire}
    (hw : ∀ e ∈ w, ∃ kind limit, field schema e.1 = some (kind, limit)) :
    w.countP (fun e => isOneof descriptor schema.name e.1) = variants schema w := by
  refine List.countP_congr fun e he => ?_
  obtain ⟨kind, limit, hfield⟩ := hw e he
  rw [isOneof_eq hfield]

/-- **Step lemma.** One level on top of sound ones. -/
theorem scanLevels_succ_sound {levels : ℕ}
    (hscan : Sound (scanLevels L levels) read (Clean descriptor levels) (Fits levels)
      (cost L levels))
    (hread : ∀ name raw w, read name raw = some w → (encodeWire w).length ≤ raw.length) :
    Sound (scanLevels L (levels + 1)) (fun name raw =>
    readFields descriptor read name raw.length raw)
      (Clean descriptor (levels + 1)) (Fits (levels + 1)) (cost L (levels + 1)) := by
  intro schema raw budget budget' h
  rw [scanLevels] at h
  split at h
  · cases h
  rename_i hmax
  split at h
  · cases h
  rename_i budget₁ hcharge
  -- the fields of this level, each within its budget
  obtain ⟨w, hw, hall, hone, hsum⟩ :=
    scanFields_sound hscan (tracks_empty schema) (Nat.zero_le _) h
  rw [List.nil_append] at hone
  have hlen := length_readFields hread hw
  refine ⟨w, hw, ⟨fun e he => ?_, ?_⟩, ⟨fun max hm => ?_, fun e he => ?_⟩, ?_, hlen⟩
  -- every field is of the schema, in its range and not too often
  · obtain ⟨kind, limit, hpos, hfield, hcount, hrange, -⟩ := hall e he
    obtain ⟨h37, label, hdesc, hlabel, -⟩ := field_agrees hfield
    refine ⟨hpos, lt_trans h37 (by norm_num), _, hdesc, hrange, fun hl => ?_⟩
    have hone : limit = 1 := by simpa [hl] using hlabel
    rw [List.nil_append, hone] at hcount
    exact hcount
  -- at most one member of each choice
  · rw [countP_isOneof fun e he => ?_]
    · exact hone
    · obtain ⟨kind, limit, -, hfield, -⟩ := hall e he
      exact ⟨kind, limit, hfield⟩
  · rw [hm] at hmax
    have hle : ¬max < raw.length := by simpa using hmax
    omega
  · obtain ⟨kind, limit, -, hfield, hcount, -, hwithin⟩ := hall e he
    rw [List.nil_append] at hcount
    exact ⟨kind, limit, hfield, hcount, hwithin⟩
  · have := charge_ok.mp hcharge
    rw [cost]
    omega

/-- **Sound.** What is accepted is read as an unambiguous tree within all limits. -/
theorem scanLevels_sound {levels limit : ℕ} (hlimit : levels ≤ limit) :
    Sound (scanLevels L (levels + 1)) (parse descriptor limit) (Clean descriptor (levels + 1))
      (Fits (levels + 1)) (cost L (levels + 1)) := by
  induction levels generalizing limit with
  | zero =>
    have hnone : ∀ read, Sound (scanLevels L 0) read (Clean descriptor 0) (Fits 0) (cost L 0) :=
      fun _ _ _ _ _ h => nomatch h
    cases limit with
    | zero => exact scanLevels_succ_sound (hnone _) fun _ _ _ h => nomatch h
    | succ limit => exact scanLevels_succ_sound (hnone _) fun _ _ _ h => length_parse h
  | succ levels ih =>
    obtain ⟨limit, rfl⟩ : ∃ k, limit = k + 1 := ⟨limit - 1, by omega⟩
    exact scanLevels_succ_sound (ih (by omega)) fun _ _ _ h => length_parse h

/-! ### The writer's form

The converse, for the bytes that the writer makes of a tree. -/

/-- What one level may assume of the levels below, the other way round. -/
def Complete (scan : Schema → List UInt8 → ℕ → Except Error ℕ) (P : Name → Wire → Prop)
    (Q : Schema → Wire → Prop) (c : Schema → Wire → ℕ) : Prop :=
  ∀ schema w budget, P schema.name w → Q schema w → c schema w ≤ budget →
    scan schema (encodeWire w) budget = .ok (budget - c schema w)

/-- The scan takes every number that its field may hold. -/
theorem scanVarint_complete {kind : Field} {n : ℕ} (hholds : kind.holds n = true)
    (hlt : n < 2 ^ 64) (rest : List UInt8) (budget : ℕ) :
    (if WireType.varint ≠ .varint then .error .malformed
      else match decodeVarint (encodeVarint n ++ rest) with
        | none => .error .malformed
        | some (value, rest) => if kind.holds value then .ok (rest, budget) else .error .fields)
      = (.ok (rest, budget) : Except Error (List UInt8 × ℕ)) := by
  rw [if_neg (by simp), decodeVarint_encodeVarint hlt]
  dsimp only
  rw [if_pos hholds]

/-- The scan takes every value that is in range and fits the budget. -/
theorem scanValue_complete (hscan : Complete scan P Q c) {kind : Field} {limit budget : ℕ} {v : Val}
    (hrange : v.InRange P kind.kind) (hwithin : Within Q kind v)
    (hcost : valCost L c kind limit v ≤ budget) (rest : List UInt8) :
    scanValue L scan kind limit v.wireType (v.encode ++ rest) budget
      = .ok (rest, budget - valCost L c kind limit v) := by
  -- one case for each kind of field, which the value's own form follows
  match kind, v, hrange with
  | .uint32, .varint n, h =>
    have hlt : n < 2 ^ 32 := h
    have hholds : Field.uint32.holds n = true := decide_eq_true hlt
    exact scanVarint_complete hholds (lt_trans hlt (by norm_num)) rest budget
  | .uint64, .varint n, h => exact scanVarint_complete rfl h rest budget
  | .int64, .varint n, h => exact scanVarint_complete rfl h rest budget
  | .enum, .varint n, h =>
    have hlt : n < 2 ^ 31 := h
    have hholds : Field.enum.holds n = true := decide_eq_true hlt
    exact scanVarint_complete hholds (lt_trans hlt (by norm_num)) rest budget
  | .bool, .varint n, h =>
    have hlt : n < 2 := h
    have hholds : Field.bool.holds n = true := decide_eq_true hlt
    exact scanVarint_complete hholds (lt_trans hlt (by norm_num)) rest budget
  | .double, .fixed64 n, h =>
    have hlen := length_fixedBytes 8 n
    have hok : ¬((Val.fixed64 n).wireType ≠ .sixtyFourBit ∨
        ((Val.fixed64 n).encode ++ rest).length < 8) := by
      simp [Val.wireType, Val.encode, hlen]
    have hdrop : ((Val.fixed64 n).encode ++ rest).drop 8 = rest := List.drop_left' hlen
    rw [scanValue, if_neg hok, hdrop]
    rfl
  | .text max, .bytes b, ⟨hlen, s, hs⟩ =>
    have hcharge : charge budget (b.length + if 1 < limit then 2 * L.sizeOfString else 0)
        = .ok (budget - valCost L c (.text max) limit (.bytes b)) := by
      rw [charge_ok]
      exact (Nat.sub_add_cancel hcost).symm
    have htext : ¬(max < b.length ∨ (utf8 b).isNone) := by
      have hmax : b.length ≤ max := hwithin
      rw [utf8_eq_some.mpr hs]
      simpa using hmax
    simp only [scanValue, Val.wireType, Val.encode, readBytes_encode hlen, hcharge, if_neg htext]
    rfl
  | .blob max, .bytes b, hlen =>
    have hmax : ¬max < b.length := not_lt.mpr hwithin
    simp only [scanValue, Val.wireType, Val.encode, readBytes_encode hlen, if_neg hmax]
    rfl
  | .nested schema, .msg w, ⟨hlen, hw⟩ =>
    have hnested := hscan schema w budget hw hwithin hcost
    simp only [scanValue, Val.wireType, Val.encode, readBytes_encode hlen, hnested]
    rfl

/-- **Step lemma.** The fields of a tree within all limits, after those of `u`. -/
theorem scanFields_complete (hscan : Complete scan P Q c) {schema : Schema} {fuel : ℕ}
    {seen : Seen} {u w : Wire} (ht : Tracks schema seen u)
    (hall : ∀ e ∈ w, ∃ kind limit, 0 < e.1 ∧ field schema e.1 = some (kind, limit) ∧
      countTag e.1 (u ++ w) ≤ limit ∧ e.2.InRange P kind.kind ∧ Within Q kind e.2)
    (hvariants : variants schema (u ++ w) ≤ 1) (hfuel : (encodeWire w).length ≤ fuel)
    {budget : ℕ} (hcost : (w.map (entryCost L c schema)).sum ≤ budget) :
    scanFields L scan schema fuel seen (encodeWire w) budget
      = .ok (budget - (w.map (entryCost L c schema)).sum) := by
  -- induction on the fields that are left; `u` grows by each one that was read
  induction w generalizing fuel seen u budget with
  | nil =>
    cases fuel <;> rfl
  | cons e w ih =>
    obtain ⟨tag, v⟩ := e
    obtain ⟨kind, limit, hpos, hfield, hcount, hrange, hwithin⟩ := hall _ List.mem_cons_self
    dsimp only at hpos hfield hcount hrange hwithin
    obtain ⟨h37, -⟩ := field_agrees hfield
    have hsplit : u ++ (tag, v) :: w = (u ++ [(tag, v)]) ++ w := by
      rw [List.append_assoc, List.singleton_append]
    have hentry : entryCost L c schema (tag, v) = valCost L c kind limit v := by
      rw [entryCost, hfield]
    rw [List.map_cons, List.sum_cons, hentry] at hcost ⊢
    have hkey := decodeKey_encodeKey hpos (lt_trans h37 (by norm_num)) v.wireType
      (v.encode ++ encodeWire w)
    have hkeylen := length_encodeKey_pos tag v.wireType
    have hcons : encodeWire ((tag, v) :: w)
        = encodeKey tag v.wireType ++ (v.encode ++ encodeWire w) := by
      rw [encodeWire, encodeEntry, List.append_assoc]
    rw [hcons] at hfuel ⊢
    rw [List.length_append, List.length_append] at hfuel
    obtain ⟨fuel, rfl⟩ : ∃ k, fuel = k + 1 := ⟨fuel - 1, by omega⟩
    -- the limits of the whole message hold of the part that was read
    obtain ⟨seen', hnext⟩ : ∃ seen', seen.next schema tag limit = .ok seen' := by
      refine (ht.next_ok v).mpr ⟨h37, ?_, fun _ _ => ?_⟩
      · rw [hsplit, countTag_append _ _ w] at hcount
        omega
      · rw [hsplit, variants_append _ _ w] at hvariants
        omega
    rw [hsplit] at hvariants
    have hrest := ih (ht.next hnext v) (fun e he => hsplit ▸ hall e (List.mem_cons_of_mem _ he))
      hvariants (show (encodeWire w).length ≤ fuel by omega)
      (show _ ≤ budget - valCost L c kind limit v by omega)
    cases hraw : encodeKey tag v.wireType ++ (v.encode ++ encodeWire w) with
    | nil =>
      have hnil := (List.append_eq_nil_iff.mp hraw).1
      rw [hnil] at hkeylen
      exact absurd hkeylen (by simp)
    | cons b raw =>
      rw [hraw] at hkey
      rw [scanFields, hkey]
      dsimp only
      rw [hfield]
      dsimp only
      rw [hnext]
      dsimp only
      rw [scanValue_complete hscan hrange hwithin (by omega)]
      dsimp only
      rw [hrest, Nat.sub_sub]

/-- **Complete.** The writer's form of an unambiguous tree within all limits is accepted. -/
theorem scanLevels_complete (levels : ℕ) :
    Complete (scanLevels L levels) (Clean descriptor levels) (Fits levels) (cost L levels) := by
  induction levels with
  | zero => exact fun _ _ _ h => h.elim
  | succ levels ih =>
    intro schema w budget hclean hfits hcost
    rw [cost] at hcost ⊢
    have hcharge : charge budget (schema.charge L) = .ok (budget - schema.charge L) := by
      rw [charge_ok]
      omega
    have hmax : ¬schema.maxBytes.any (· < (encodeWire w).length) = true := by
      rw [Option.any_eq_true]
      rintro ⟨max, hmax, hlt⟩
      have := hfits.1 max hmax
      have := of_decide_eq_true hlt
      omega
    have hall : ∀ e ∈ w, ∃ kind limit, 0 < e.1 ∧ field schema e.1 = some (kind, limit) ∧
        countTag e.1 ([] ++ w) ≤ limit ∧ e.2.InRange (Clean descriptor levels) kind.kind ∧
        Within (Fits levels) kind e.2 := by
      intro e he
      obtain ⟨kind, limit, hfield, hcount, hwithin⟩ := hfits.2 e he
      obtain ⟨hpos, -, d, hd, hrange, -⟩ := hclean.1 e he
      obtain ⟨-, label, hdesc, -⟩ := field_agrees hfield
      rw [hdesc] at hd
      cases hd
      exact ⟨kind, limit, hpos, hfield, hcount, hrange, hwithin⟩
    have hone : variants schema ([] ++ w) ≤ 1 := by
      rw [List.nil_append, ← countP_isOneof fun e he => ?_]
      · exact hclean.2
      · obtain ⟨kind, limit, -, hfield, -⟩ := hall e he
        exact ⟨kind, limit, hfield⟩
    rw [scanLevels, if_neg hmax, hcharge]
    dsimp only
    rw [scanFields_complete ih (tracks_empty schema) hall hone (le_refl _) (by omega), Nat.sub_sub]

/-! ### Normal forms

What is sent on is a normal form of what was received, so it is within the limits too. -/

/-- A normal form keeps the limits of its values, and costs no more. -/
theorem Within.normal {levels : ℕ} {kind : Field} {limit : ℕ} {v v' : Val}
    (hnested : ∀ schema w w', Fits levels schema w → Normal descriptor levels schema.name w' w →
      Fits levels schema w' ∧ cost L levels schema w' ≤ cost L levels schema w)
    (h : Within (Fits levels) kind v)
    (hsame : v'.Same (Normal descriptor levels) kind.kind v) :
    Within (Fits levels) kind v' ∧
      valCost L (cost L levels) kind limit v' ≤ valCost L (cost L levels) kind limit v := by
  cases kind with
  | nested schema =>
    obtain ⟨w', w, rfl, rfl, hnormal⟩ := hsame
    exact hnested schema w w' h hnormal
  | _ =>
    rw [show v' = v from hsame]
    exact ⟨h, le_refl _⟩

/-- **A normal form fits** where the message did. -/
theorem Fits.normal {levels : ℕ} {schema : Schema} {w w' : Wire} (h : Fits levels schema w)
    (hnormal : Normal descriptor levels schema.name w' w) :
    Fits levels schema w' ∧ cost L levels schema w' ≤ cost L levels schema w := by
  induction levels generalizing schema w w' with
  | zero => exact h.elim
  | succ levels ih =>
    have hvalue : ∀ e' e : ℕ × Val, e'.1 = e.1 → e ∈ w → ∀ d, descriptor schema.name e.1 = some d →
        e'.2.Same (Normal descriptor levels) d.kind e.2 →
        ∃ kind limit, field schema e.1 = some (kind, limit) ∧ countTag e.1 w ≤ limit ∧
          Within (Fits levels) kind e'.2 ∧ valCost L (cost L levels) kind limit e'.2
            ≤ valCost L (cost L levels) kind limit e.2 := by
      intro e' e htag he d hd hsame
      obtain ⟨kind, limit, hfield, hcount, hwithin⟩ := h.2 e he
      obtain ⟨-, label, hdesc, -⟩ := field_agrees hfield
      rw [hdesc] at hd
      cases hd
      exact ⟨kind, limit, hfield, hcount, Within.normal (fun _ _ _ => ih) hwithin hsame⟩
    refine ⟨⟨fun max hmax => le_trans hnormal.length_le (h.1 max hmax), fun e' he' => ?_⟩, ?_⟩
    · obtain ⟨e, he, htag, d, hd, hsame⟩ := hnormal.mem he'
      obtain ⟨kind, limit, hfield, hcount, hwithin, -⟩ := hvalue e' e htag he d hd hsame
      rw [htag]
      exact ⟨kind, limit, hfield, le_trans (hnormal.countTag_le e.1) hcount, hwithin⟩
    · rw [cost, cost]
      refine Nat.add_le_add_left (hnormal.sum_le _ fun e' e d htag he hd hsame => ?_) _
      obtain ⟨kind, limit, hfield, -, -, hle⟩ := hvalue e' e htag he d hd hsame
      rw [entryCost, entryCost, htag, hfield]
      exact hle

end

end Hmux.Protocol
