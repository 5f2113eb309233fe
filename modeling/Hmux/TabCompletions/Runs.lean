import Mathlib.Data.Finset.Card
import Hmux.Lib.Latest
import Hmux.TabCompletions.Store
import Hmux.UsagePreferences.Runs

namespace Hmux.TabCompletions

open Lib
open UsagePreferences (Accounts Key key filename CollisionFree)

/-!
# Runs of the completion receipts

The store writes files that it reads again, so that memory and disk agree as long as it does not
declare its storage failed, whichever writes and reads failed before:

* `loadValid_encode` — what is written is read back;
* `State.Inv`, `step_inv` — memory and disk agree, in every state of a run;
* `answer_restarted` — an answer is what a store answers that is opened right after it;
* `sequence_identifies` — the sequence of a snapshot stands for the ledger behind it;
* `acknowledge_marks` — an acknowledgement marks one entry of one account as read;
* `recorded_latest` — the ledger has the latest event of every session, in whatever order the events
  arrive.
-/

/-! ### The format

The texts of a row have lengths that are bounded and no characters that JSON escapes, so a ledger
of valid rows fits its file. -/

/-- An instant is written without characters that JSON escapes, as RFC 3339 has it. -/
def PlainTimes (parse : String → Option DateTime) : Prop :=
  ∀ s, (parse s).isSome = true → Json.unescaped s = true

/-- The library reads back the text of every ledger. -/
def ReadsFiles (S : Serde) : Prop := ∀ r : Rows, S.Reads (rowsCodec.write r)

section

variable {S : Serde} {parse : String → Option DateTime} {e : Event} {r : Rows}

/-- Every ledger is read back from its JSON. -/
theorem rowsCodec_reads (r : Rows) : rowsCodec.Reads r := by
  have hevent : ∀ e : Event, eventCodec.Reads e := by
    intro e
    unfold eventCodec
    rw [Codec.object_reads (by decide)]
    refine Fields.map_reads rfl ?_
    simp only [Fields.and_reads, Fields.required_reads]
    exact ⟨Model.identityCodec_reads _, Codec.string_reads _, Codec.string_reads _⟩
  unfold rowsCodec
  rw [Codec.object_reads (by decide)]
  refine Fields.map_reads rfl ?_
  simp only [Fields.and_reads, Fields.required_reads]
  exact ⟨Codec.int64_reads _, Codec.list_reads fun e _ => hevent e⟩

/-- A number of 64 bits has at most 20 characters. -/
theorem length_int64 (n : Int64) : (Json.text S.format (.int n.toInt)).length ≤ 20 := by
  have hlow := n.le_toInt
  have hhigh := n.toInt_lt
  rw [Json.text]
  exact Json.length_decimal_le (by decide) (by omega)

/-- A hexadecimal digit needs no escape. -/
theorem unescaped_of_hex {s : String} (h : (bytes s).all isAsciiHexdigit = true) :
    Json.unescaped s = true := by
  rw [Json.unescaped, List.all_eq_true]
  intro b hb
  have hdigit := List.all_eq_true.mp h b hb
  unfold isAsciiHexdigit isAsciiDigit at hdigit
  simp only [Bool.or_eq_true, Bool.and_eq_true, decide_eq_true_eq, UInt8.le_iff_toNat_le] at hdigit
  have hrange : 48 ≤ b.toNat ∧ b.toNat ≠ 92 := by
    rcases hdigit with (⟨hlow, hhigh⟩ | ⟨hlow, hhigh⟩) | ⟨hlow, hhigh⟩
    · refine ⟨hlow, fun heq => ?_⟩
      rw [heq] at hhigh
      exact absurd hhigh (by decide)
    · refine ⟨Nat.le_trans (by decide) hlow, fun heq => ?_⟩
      rw [heq] at hlow
      exact absurd hlow (by decide)
    · refine ⟨Nat.le_trans (by decide) hlow, fun heq => ?_⟩
      rw [heq] at hhigh
      exact absurd hhigh (by decide)
  have hlow : (32 : UInt8) ≤ b := UInt8.le_iff_toNat_le.mpr (Nat.le_trans (by decide) hrange.1)
  have hquote : b ≠ 34 := by
    rintro rfl
    exact absurd hrange.1 (by decide)
  have hslash : b ≠ 92 := by
    rintro rfl
    exact hrange.2 rfl
  rw [decide_eq_true hlow, decide_eq_true hquote, decide_eq_true hslash]
  rfl

/-- The text of a session is short. -/
theorem length_session {m : SessionIdentity} (h : validateSessionId m.id = true) :
    (Json.text S.format (Model.identityCodec.write m)).length ≤ 128 := by
  unfold validateSessionId at h
  simp only [Bool.and_eq_true, decide_eq_true_eq] at h
  have hid := Json.length_quote_le m.id
  have hmax := h.1.1.2
  have hcreated := length_int64 (S := S) m.createdAt
  show (Json.text S.format (.obj [("id", .str m.id),
    ("created_at", .int m.createdAt.toInt)])).length
    ≤ 128
  rw [Json.length_text_obj_cons, Json.length_textMoreFields_cons, Json.length_textMoreFields_nil,
    show Json.text S.format (.str m.id) = Json.quote m.id by rw [Json.text],
    show (Json.quote "id").length = 4 by decide,
    show (Json.quote "created_at").length = 12 by decide]
  omega

/-- The text of an event is short. -/
theorem length_event (hparse : PlainTimes parse) (h : e.valid parse = true) :
    (Json.text S.format (eventCodec.write e)).length ≤ 300 := by
  unfold Event.valid validKey at h
  simp only [Bool.and_eq_true, decide_eq_true_eq, beq_iff_eq] at h
  obtain ⟨⟨⟨⟨⟨-, hid⟩, hlen⟩, hhex⟩, hcompleted⟩, htime⟩ := h
  have hsession := length_session (S := S) hid
  have hevent := Json.length_quote_of_unescaped (unescaped_of_hex hhex)
  have hcompleted' := Json.length_quote_of_unescaped (hparse _ htime)
  show (Json.text S.format (.obj [("session", Model.identityCodec.write e.session),
    ("event_id", .str e.eventId), ("completed_at", .str e.completedAt)])).length ≤ 300
  rw [Json.length_text_obj_cons, Json.length_textMoreFields_cons, Json.length_textMoreFields_cons,
    Json.length_textMoreFields_nil,
    show Json.text S.format (.str e.eventId) = Json.quote e.eventId by rw [Json.text],
    show Json.text S.format (.str e.completedAt) = Json.quote e.completedAt by rw [Json.text],
    show (Json.quote "session").length = 9 by decide,
    show (Json.quote "event_id").length = 10 by decide,
    show (Json.quote "completed_at").length = 14 by decide]
  omega

/-- What `Rows.valid` says. -/
theorem rows_valid : r.valid parse = true ↔ (0 ≤ r.revision ∧ r.revision < maxRevision) ∧
    r.events.length ≤ maxEntries ∧ (∀ e ∈ r.events, e.valid parse = true) ∧
    (r.events.map Event.session).Nodup := by
  unfold Rows.valid
  simp only [Bool.and_eq_true, decide_eq_true_eq, List.all_eq_true]
  tauto

/-- A valid revision is small enough to count one more. -/
theorem toInt_revision_succ (h : r.valid parse = true) :
    (r.revision + 1).toInt = r.revision.toInt + 1 := by
  obtain ⟨⟨hlow, hhigh⟩, -⟩ := rows_valid.mp h
  rw [Int64.le_iff_toInt_le, show (0 : Int64).toInt = 0 from rfl] at hlow
  rw [Int64.lt_iff_toInt_lt, show maxRevision.toInt = 9007199254740991 from rfl] at hhigh
  rw [Int64.toInt_add, show (1 : Int64).toInt = 1 from rfl,
    Int.bmod_eq_of_le (by omega) (by omega)]

/-- The file of a valid ledger is not too large. -/
theorem length_encode (hparse : PlainTimes parse) (h : r.valid parse = true) :
    (encode S r).length ≤ maxBytes := by
  obtain ⟨-, hlen, hall, -⟩ := rows_valid.mp h
  have hitems : ∀ j ∈ r.events.map eventCodec.write, (Json.text S.format j).length ≤ 300 := by
    intro j hj
    obtain ⟨e, he, rfl⟩ := List.mem_map.mp hj
    exact length_event hparse (hall e he)
  have hevents := Json.length_text_arr_le S.format hitems
  rw [List.length_map] at hevents
  have hrevision := length_int64 (S := S) r.revision
  have hmax : r.events.length ≤ 256 := hlen
  show (Json.text S.format (.obj [("revision", .int r.revision.toInt),
    ("events", .arr (r.events.map eventCodec.write))])).length ≤ 131072
  rw [Json.length_text_obj_cons, Json.length_textMoreFields_cons, Json.length_textMoreFields_nil,
    show (Json.quote "revision").length = 10 by decide,
    show (Json.quote "events").length = 8 by decide]
  omega

/-- **What is written is read back.** -/
theorem loadValid_encode (hserde : ReadsFiles S) (hparse : PlainTimes parse)
    (h : r.valid parse = true) {files : Files} {name : String}
    (hfile : files name = some (encode S r)) : loadValid S parse files name true = .ok r := by
  have hread : (S.fromSlice (encode S r)).bind rowsCodec.read = some r := by
    rw [encode, (hserde r).fromSlice]
    exact rowsCodec_reads r
  have hload : load S files name true = .ok r := by
    unfold load
    rw [hfile]
    dsimp only
    rw [Bool.not_true, if_neg Bool.false_ne_true,
      if_neg (Nat.not_lt.mpr (length_encode hparse h)), hread]
  unfold loadValid
  rw [hload]
  exact if_pos h

/-- What is loaded is valid. -/
theorem loadValid_ok {files : Files} {name : String} {readable : Bool}
    (h : loadValid S parse files name readable = .ok r) :
    r.valid parse = true ∧ loadValid S parse files name true = .ok r := by
  unfold loadValid at h
  cases readable with
  | false =>
    rw [show load S files name false = .error .unavailable from rfl] at h
    cases h
  | true =>
    refine ⟨?_, h⟩
    cases hload : load S files name true with
    | error e =>
      rw [hload] at h
      cases h
    | ok rows =>
      rw [hload] at h
      dsimp only at h
      split at h
      · next hvalid =>
        cases h
        exact hvalid
      · cases h

/-- A file decides what is loaded. -/
theorem loadValid_congr {files files' : Files} {name : String} {readable : Bool}
    (h : files' name = files name) :
    loadValid S parse files' name readable = loadValid S parse files name readable := by
  unfold loadValid load
  rw [h]

end

/-! ### Memory and disk

The ledger in memory is that of its file, and the cache has what the files of the accounts have,
unless a write failed: then the store says that its storage failed and answers nothing. -/

/-- Memory and disk agree. -/
structure State.Inv (S : Serde) (parse : String → Option DateTime) (s : State) : Prop where
  ledger : s.storageFailed = false → loadValid S parse s.files eventsFile true = .ok s.ledger
  valid : s.ledger.valid parse = true
  coherent : ∀ e ∈ s.reads, e.1 ≠ eventsFile ∧ loadValid S parse s.files e.1 true = .ok e.2
  nodup : (s.reads.map Prod.fst).Nodup
  few : s.reads.length ≤ cacheAccounts

/-- What a step can do to the ledger: nothing, or it enters an event. -/
def State.Advances (parse : String → Option DateTime) (s s' : State) : Prop :=
  s'.ledger = s.ledger ∨ ∃ event, event.valid parse = true ∧
    s.ledger.recorded parse event = some s'.ledger

section

variable {S : Serde} {parse : String → Option DateTime} {s s' : State} {k : String} {r : Rows}
  {event : Event} {live : Finset SessionIdentity} {request : ReadRequest}

/-- What is cached for a key is one of the cached entries. -/
theorem State.cached_mem (h : s.cached k = some r) : (k, r) ∈ s.reads := by
  unfold State.cached at h
  obtain ⟨e, he, rfl⟩ := Option.map_eq_some_iff.mp h
  have hkey : e.1 = k := by simpa using List.find?_some he
  rw [← hkey]
  exact List.mem_of_find?_eq_some he

/-- What stays in the cache is for another key. -/
theorem State.mem_forget {e : String × Rows} (h : e ∈ (s.forget k).reads) :
    e ∈ s.reads ∧ e.1 ≠ k := by
  rw [State.forget, List.mem_filter, decide_eq_true_eq] at h
  exact h

/-- What is in the cache is the new entry or one for another key. -/
theorem State.mem_cache {e : String × Rows} (h : e ∈ (s.cache k r).reads) :
    e = (k, r) ∨ (e ∈ s.reads ∧ e.1 ≠ k) := by
  unfold State.cache at h
  rcases List.mem_append.mp h with h | h
  · refine .inr (State.mem_forget ?_)
    show e ∈ s.reads.filter fun e => e.1 ≠ k
    split at h
    · exact List.mem_of_mem_tail h
    · exact h
  · exact .inl (List.mem_singleton.mp h)

/-- A value that is on disk may be cached; the oldest entry makes room. -/
theorem State.Inv.cache (h : s.Inv S parse) (hk : k ≠ eventsFile)
    (hr : loadValid S parse s.files k true = .ok r) : (s.cache k r).Inv S parse := by
  have hsub : ∀ l : List (String × Rows), (l = s.reads.filter (fun e => e.1 ≠ k) ∨
      l = (s.reads.filter fun e => e.1 ≠ k).tail) → l.Sublist s.reads ∧ ∀ e ∈ l, e.1 ≠ k := by
    intro l hl
    have hfilter : (s.reads.filter fun e => e.1 ≠ k).Sublist s.reads := List.filter_sublist
    have hne : ∀ e ∈ s.reads.filter (fun e => e.1 ≠ k), e.1 ≠ k :=
      fun e he => of_decide_eq_true (List.mem_filter.mp he).2
    rcases hl with rfl | rfl
    · exact ⟨hfilter, hne⟩
    · exact ⟨(List.tail_sublist _).trans hfilter, fun e he => hne e (List.mem_of_mem_tail he)⟩
  refine ⟨h.ledger, h.valid, fun e he => ?_, ?_, ?_⟩
  · rcases State.mem_cache he with rfl | ⟨he, -⟩
    · exact ⟨hk, hr⟩
    · exact h.coherent e he
  · obtain ⟨hpart, hother⟩ := hsub (if (s.reads.filter fun e => e.1 ≠ k).length = cacheAccounts then
      (s.reads.filter fun e => e.1 ≠ k).tail else s.reads.filter fun e => e.1 ≠ k)
      (by split <;> simp)
    show (List.map Prod.fst (_ ++ [(k, r)])).Nodup
    rw [List.map_append, List.nodup_append]
    refine ⟨h.nodup.sublist (hpart.map _), List.nodup_singleton _, fun a ha b hb => ?_⟩
    obtain ⟨e, he, rfl⟩ := List.mem_map.mp ha
    rw [List.map_singleton, List.mem_singleton] at hb
    rw [hb]
    exact hother e he
  · have hle : (s.reads.filter fun e => e.1 ≠ k).length ≤ cacheAccounts :=
      (List.length_filter_le _ _).trans h.few
    show (_ ++ [(k, r)]).length ≤ cacheAccounts
    rw [List.length_append, List.length_singleton]
    unfold cacheAccounts at hle ⊢
    split
    · rw [List.length_tail]
      omega
    · omega

/-- An entry may be dropped from the cache. -/
theorem State.Inv.forget (h : s.Inv S parse) (k : String) : (s.forget k).Inv S parse := by
  refine ⟨h.ledger, h.valid, fun e he => h.coherent e (State.mem_forget he).1, ?_, ?_⟩
  · exact h.nodup.sublist (List.filter_sublist.map _)
  · exact (List.length_filter_le _ _).trans h.few

/-- The state with another content of a file. -/
def State.put (s : State) (name : String) (raw : List UInt8) : State :=
  { s with files := fun n => if n = name then some raw else s.files n }

/-- A file is replaced and no other. -/
theorem State.files_put {name n : String} {raw : List UInt8} :
    (s.put name raw).files n = if n = name then some raw else s.files n := rfl

/-- **What a write does**, whether it fails before or after the rename. -/
theorem State.write_cases (s : State) (name : String) (raw : List UInt8) (outcome : WriteOutcome) :
    s.write name raw outcome = (true, s.put name raw) ∨ s.write name raw outcome = (false, s) ∨
      s.write name raw outcome = (false, s.put name raw) := by
  cases outcome with
  | done => exact .inl rfl
  | beforeCommit =>
    right
    left
    have hfiles : (fun n => if n = name then s.files name else s.files n) = s.files := by
      funext n
      split
      · next heq => rw [heq]
      · rfl
    show (false, ({ s with
      files := fun n => if n = name then s.files name else s.files n } : State)) = (false, s)
    rw [hfiles]
  | afterCommit => exact .inr (.inr rfl)

/-- A ledger that was written is the ledger. -/
theorem State.Inv.putLedger (hserde : ReadsFiles S) (hparse : PlainTimes parse)
    (h : s.Inv S parse) (hr : r.valid parse = true) :
    ({ s.put eventsFile (encode S r) with ledger := r } : State).Inv S parse where
  ledger _ := by
    have hfile : (s.put eventsFile (encode S r)).files eventsFile = some (encode S r) := by
      rw [State.files_put, if_pos rfl]
    exact loadValid_encode hserde hparse hr hfile
  valid := hr
  coherent e he := by
    obtain ⟨hne, hload⟩ := h.coherent e he
    exact ⟨hne, (loadValid_congr (if_neg hne)).trans hload⟩
  nodup := h.nodup
  few := h.few

/-- **An event is recorded**, or not: the ledger is what it was or has the event, and so has the
    file, unless the store cannot know. -/
theorem State.record_spec (hserde : ReadsFiles S) (hparse : PlainTimes parse) (h : s.Inv S parse)
    (event : Event) (env : RecordEnv) :
    (s.record S parse event env).2.Inv S parse ∧ s.Advances parse
    (s.record S parse event env).2 := by
  have hsame : s.Inv S parse ∧ s.Advances parse s := ⟨h, .inl rfl⟩
  unfold State.record
  -- has the storage failed?
  split
  · exact hsame
  · next hstorage =>
    -- is the event valid?
    split
    · exact hsame
    · next hevent =>
      -- does it change the ledger?
      split
      · exact hsame
      · next next hnext =>
        -- is the next ledger valid?
        split
        · exact hsame
        · next hvalid =>
          rw [Bool.not_eq_true, Bool.not_eq_false'] at hevent hvalid
          rw [Bool.not_eq_true] at hstorage
          have hadvance : ∀ s' : State, s'.ledger = next → s.Advances parse s' := by
            rintro s' rfl
            exact .inr ⟨event, hevent, hnext⟩
          have hput := h.putLedger hserde hparse hvalid
          dsimp only
          -- the event is entered, if the write says so or the file shows it
          rcases s.write_cases eventsFile (encode S next) env.outcome with hw | hw | hw
          · rw [hw]
            exact ⟨hput, hadvance _ rfl⟩
          · rw [hw, if_neg Bool.false_ne_true]
            dsimp only
            -- after a failed write the file is read again; without that the storage is given up
            split
            · have hfailed : ¬ true = false := by decide
              exact ⟨⟨fun heq => absurd heq hfailed, h.valid, h.coherent, h.nodup, h.few⟩, .inl rfl⟩
            · next loaded hloaded =>
              -- the file was not replaced
              have hledger := (loadValid_ok hloaded).2.symm.trans (h.ledger hstorage)
              rw [Except.ok.inj hledger]
              exact hsame
          · rw [hw, if_neg Bool.false_ne_true]
            dsimp only
            split
            · have hfailed : ¬ true = false := by decide
              have hcoherent := hput.coherent
              exact ⟨⟨fun heq => absurd heq hfailed, h.valid, hcoherent, h.nodup, h.few⟩, .inl rfl⟩
            · next loaded hloaded =>
              -- the file was replaced although the write failed
              have hledger := (loadValid_ok hloaded).2.symm.trans (hput.ledger hstorage)
              rw [Except.ok.inj hledger]
              exact ⟨hput, hadvance _ rfl⟩

/-- What an account reads changes the cache only. -/
theorem State.account_spec (h : s.Inv S parse) (hk : k ≠ eventsFile) (readable : Bool) :
    (s.account S parse k readable).2.Inv S parse ∧
      (s.account S parse k readable).2.ledger = s.ledger ∧
      (s.account S parse k readable).2.storageFailed = s.storageFailed ∧
      (s.account S parse k readable).2.files = s.files ∧
      ∀ r, (s.account S parse k readable).1 = .ok r → loadValid S parse s.files k true = .ok r := by
  unfold State.account
  cases hcached : s.cached k with
  | some value =>
    refine ⟨h, rfl, rfl, rfl, fun r hr => ?_⟩
    cases hr
    exact (h.coherent (k, value) (State.cached_mem hcached)).2
  | none =>
    dsimp only
    cases hload : loadValid S parse s.files k readable with
    | error e => exact ⟨h, rfl, rfl, rfl, fun r hr => by cases hr⟩
    | ok value =>
      have hvalue := (loadValid_ok hload).2
      refine ⟨h.cache hk hvalue, rfl, rfl, rfl, fun r hr => ?_⟩
      cases hr
      exact hvalue

/-- What an account sees of the ledger: its snapshot with the receipts of its file. -/
def State.view (S : Serde) (parse : String → Option DateTime) (s : State) (k : String)
    (live : Finset SessionIdentity) : Except Error Snapshot :=
  (loadValid S parse s.files k true).map fun reads => s.snapshot reads live

/-- What `get` does: it changes the cache only, and a snapshot that it returns is the view. -/
structure GetSpec (S : Serde) (parse : String → Option DateTime) (s : State) (k : String)
    (live : Finset SessionIdentity) (out : Except Error Snapshot × State) : Prop where
  inv : out.2.Inv S parse
  ledger : out.2.ledger = s.ledger
  storage : out.2.storageFailed = s.storageFailed
  files : out.2.files = s.files
  ok : ∀ snap, out.1 = .ok snap → s.storageFailed = false ∧ s.view S parse k live = .ok snap

/-- A call that is refused changes nothing. -/
theorem GetSpec.error (h : s.Inv S parse) (e : Error) : GetSpec S parse s k live (.error e, s) :=
  ⟨h, rfl, rfl, rfl, fun snap hsnap => by cases hsnap⟩

/-- **`get`** with the directory in its hands. -/
theorem State.get_spec (h : s.Inv S parse) (hk : k ≠ eventsFile) (live : Finset SessionIdentity)
    (env : GetEnv) :
    GetSpec S parse s k live (s.get S parse k live env) := by
  obtain ⟨haccount, hledger, hstorage, hfiles, hvalue⟩ := State.account_spec h hk env.readable
  unfold State.get
  split
  · exact .error h _
  · split
    · exact .error h _
    · split
      · exact .error h _
      · next hworks =>
        rw [Bool.not_eq_true] at hworks
        cases hgot : s.account S parse k env.readable with
        | mk result s₁ =>
          rw [hgot] at haccount hledger hstorage hfiles hvalue
          cases result with
          | error e => exact ⟨haccount, hledger, hstorage, hfiles, fun snap hsnap => by cases hsnap⟩
          | ok reads =>
            refine ⟨haccount, hledger, hstorage, hfiles, fun snap hsnap => ⟨hworks, ?_⟩⟩
            cases hsnap
            unfold State.view
            rw [hvalue reads rfl]
            show Except.ok (s.snapshot reads live) = Except.ok (s₁.snapshot reads live)
            unfold State.snapshot
            rw [hledger]

/-- **`get`** as it is called; the cache may answer. -/
theorem get_spec (h : s.Inv S parse) (hk : k ≠ eventsFile) (live : Finset SessionIdentity)
    (env : GetEnv) :
    GetSpec S parse s k live (Store.get S parse s k live env) := by
  have hwork := State.get_spec h hk live env
  unfold Store.get
  split
  · exact .error h _
  · split
    · exact .error h _
    · split
      · exact hwork
      · split
        · exact .error h _
        · next hworks =>
          rw [Bool.not_eq_true] at hworks
          split
          · next reads hcached =>
            refine ⟨h, rfl, rfl, rfl, fun snap hsnap => ⟨hworks, ?_⟩⟩
            cases hsnap
            unfold State.view
            rw [(h.coherent (k, reads) (State.cached_mem hcached)).2]
            rfl
          · exact hwork

/-! ### Acknowledgements

A receipt is a pair of a session and an event, and counts only while that event is the latest of
the session. -/

/-- The requested entry is read, and everything else is as it was; the revision of the receipts
    counts the change, if there is one. -/
structure Snapshot.Marked (request : ReadRequest) (before after : Snapshot) : Prop where
  version : after.version = before.version
  sequence : after.sequence = before.sequence
  readRevision : after.readRevision = before.readRevision ∨
    after.readRevision.toInt = before.readRevision.toInt + 1
  entries : after.entries = before.entries.map fun e =>
    if e.event.matches request.session request.eventId then { e with unread := false } else e

/-- An event matches its own session and id. -/
theorem matches_iff {e : Event} {m : SessionIdentity} {id : String} :
    e.matches m id = true ↔ e.session = m ∧ e.eventId = id := by
  unfold Event.matches
  rw [Bool.and_eq_true, beq_iff_eq, beq_iff_eq]

/-- Events of other sessions are fewer than the sessions. -/
theorem length_others {events : List Event} {sessions : Finset SessionIdentity}
    {m : SessionIdentity}
    (hnodup : (events.map Event.session).Nodup) (hm : m ∈ sessions)
    (hothers : ∀ e ∈ events, e.session ≠ m ∧ e.session ∈ sessions) :
    events.length < sessions.card := by
  have hsub : (events.map Event.session).toFinset ⊆ sessions.erase m := by
    intro m' hm'
    obtain ⟨e, he, rfl⟩ := List.mem_map.mp (List.mem_toFinset.mp hm')
    exact Finset.mem_erase.mpr (hothers e he)
  have hle := Finset.card_le_card hsub
  rw [List.toFinset_card_of_nodup hnodup, List.length_map, Finset.card_erase_of_mem hm] at hle
  have hpos : 0 < sessions.card := Finset.card_pos.mpr ⟨_, hm⟩
  omega

/-- There is room for a receipt: those that stay belong to other live sessions. -/
theorem acknowledged_events (hr : r.valid parse = true) (hlive : event.session ∈ live)
    (hcard : live.card ≤ maxEntries) : (r.acknowledged event live).events =
      (r.events.filter fun e => decide (e.session ∈ live) && e.session ≠ event.session) ++
        [event] := by
  have hpart :
    ((r.events.filter fun e => decide (e.session ∈ live) && e.session ≠ event.session).map
      Event.session).Nodup := (rows_valid.mp hr).2.2.2.sublist (List.filter_sublist.map _)
  have hless := length_others hpart hlive fun e he => by
    have hkept := (List.mem_filter.mp he).2
    rw [Bool.and_eq_true, decide_eq_true_eq, decide_eq_true_eq] at hkept
    exact ⟨hkept.2, hkept.1⟩
  unfold Rows.acknowledged
  dsimp only
  rw [if_neg]
  exact Nat.ne_of_lt (Nat.lt_of_lt_of_le hless hcard)

/-- **A receipt marks its entry and no other.** -/
theorem marked_acknowledged (hs : s.ledger.valid parse = true) (hr : r.valid parse = true)
    (hfind : s.ledger.events.find? (fun e => e.matches request.session request.eventId) =
    some event)
    (hlive : request.session ∈ live) (hcard : live.card ≤ maxEntries)
    (hledger : s'.ledger = s.ledger) :
    Snapshot.Marked request (s.snapshot r live) (s'.snapshot (r.acknowledged event live) live) := by
  have hmem := List.mem_of_find?_eq_some hfind
  have hmatch : event.matches request.session request.eventId = true := by
    have hsome := List.find?_some hfind
    exact hsome
  -- the entry that is found is the only one of its session
  obtain ⟨hsession, hid⟩ := matches_iff.mp hmatch
  have hsessions := (rows_valid.mp hs).2.2.2
  refine ⟨rfl, by unfold State.snapshot; rw [hledger], .inr (toInt_revision_succ hr), ?_⟩
  unfold State.snapshot
  dsimp only
  rw [hledger, List.map_map]
  apply List.map_congr_left
  intro e he
  obtain ⟨hmem', hlive'⟩ := List.mem_filter.mp he
  rw [acknowledged_events hr (hsession ▸ hlive) hcard, List.any_append, Function.comp_apply]
  dsimp only
  -- the entry that was asked for has its receipt now
  by_cases hrequested : e.matches request.session request.eventId = true
  · obtain ⟨hsession', hid'⟩ := matches_iff.mp hrequested
    have hmatch : event.matches e.session e.eventId = true :=
      matches_iff.mpr ⟨hsession.trans hsession'.symm, hid.trans hid'.symm⟩
    rw [if_pos hrequested, List.any_cons, hmatch, Bool.true_or, Bool.or_true]
    rfl
  -- other entries are of other sessions, whose receipts stay
  · rw [if_neg hrequested]
    have hne : e.session ≠ event.session := by
      intro heq
      apply hrequested
      rw [List.inj_on_of_nodup_map hsessions hmem' hmem heq]
      exact matches_iff.mpr ⟨hsession, hid⟩
    have hother : event.matches e.session e.eventId = false := by
      by_contra hmatch
      rw [Bool.not_eq_false] at hmatch
      exact hne (matches_iff.mp hmatch).1.symm
    rw [List.any_cons, hother, Bool.false_or, List.any_nil, Bool.or_false]
    congr 2
    apply Bool.eq_iff_iff.mpr
    rw [List.any_eq_true, List.any_eq_true]
    constructor
    · rintro ⟨x, hx, hmatch⟩
      exact ⟨x, (List.mem_filter.mp hx).1, hmatch⟩
    · rintro ⟨x, hx, hmatch⟩
      refine ⟨x, List.mem_filter.mpr ⟨hx, ?_⟩, hmatch⟩
      rw [(matches_iff.mp hmatch).1, Bool.and_eq_true, decide_eq_true_eq]
      exact ⟨of_decide_eq_true hlive', decide_eq_true hne⟩

/-- A receipt that is there marks its entry already. -/
theorem marked_self
    (hfind : s.ledger.events.find? (fun e => e.matches request.session request.eventId) =
    some event)
    (hread : event ∈ r.events) :
    Snapshot.Marked request (s.snapshot r live) (s.snapshot r live) := by
  have hmatch : event.matches request.session request.eventId = true := by
    have hsome := List.find?_some hfind
    exact hsome
  obtain ⟨hsession, hid⟩ := matches_iff.mp hmatch
  refine ⟨rfl, rfl, .inl rfl, ?_⟩
  unfold State.snapshot
  dsimp only
  rw [List.map_map]
  apply List.map_congr_left
  intro e he
  rw [Function.comp_apply]
  dsimp only
  split
  · next hrequested =>
    obtain ⟨hsession', hid'⟩ := matches_iff.mp hrequested
    have hany : (r.events.any fun x => x.matches e.session e.eventId) = true :=
      List.any_eq_true.mpr ⟨event, hread,
        matches_iff.mpr ⟨hsession.trans hsession'.symm, hid.trans hid'.symm⟩⟩
    rw [hany]
    rfl
  · rfl

/-- The requested entry is in the snapshot, and it is read, when its receipt is there. -/
theorem snapshot_read
    (hfind : s.ledger.events.find? (fun e => e.matches request.session request.eventId) =
      some event)
    (hlive : request.session ∈ live) (hread : event ∈ r.events) :
    ∃ e ∈ (s.snapshot r live).entries,
      e.event.matches request.session request.eventId = true ∧ e.unread = false := by
  have hmatch : event.matches request.session request.eventId = true := by
    have hsome := List.find?_some hfind
    exact hsome
  have hsession := (matches_iff.mp hmatch).1
  have hany : (r.events.any fun x => x.matches event.session event.eventId) = true :=
    List.any_eq_true.mpr ⟨event, hread, matches_iff.mpr ⟨rfl, rfl⟩⟩
  refine ⟨⟨event, _⟩, List.mem_map_of_mem (List.mem_filter.mpr
    ⟨List.mem_of_find?_eq_some hfind, decide_eq_true (hsession ▸ hlive)⟩), hmatch, ?_⟩
  dsimp only
  rw [hany]
  rfl

/-- Memory and disk agree when the file of an account was written and its entry was dropped. -/
theorem State.Inv.putReads (h : s.Inv S parse) (hk : k ≠ eventsFile) (raw : List UInt8) :
    ((s.put k raw).forget k).Inv S parse where
  ledger hstorage := (loadValid_congr (if_neg hk.symm)).trans (h.ledger hstorage)
  valid := h.valid
  coherent e he := by
    obtain ⟨hmem, hne⟩ := State.mem_forget he
    obtain ⟨hevents, hload⟩ := h.coherent e hmem
    exact ⟨hevents, (loadValid_congr (if_neg hne)).trans hload⟩
  nodup := h.nodup.sublist (List.filter_sublist.map _)
  few := (List.length_filter_le _ _).trans h.few

/-- An entry that is dropped and made again is made. -/
theorem State.cache_forget : (s.forget k).cache k r = s.cache k r := by
  unfold State.cache State.forget
  simp [List.filter_filter]

/-- What an acknowledgement does. -/
structure AckSpec (S : Serde) (parse : String → Option DateTime) (s : State) (k : String)
    (request : ReadRequest) (live : Finset SessionIdentity) (out : Except Error Snapshot × State) :
    Prop where
  inv : out.2.Inv S parse
  ledger : out.2.ledger = s.ledger
  storage : out.2.storageFailed = s.storageFailed
  others : ∀ k', k' ≠ k → out.2.files k' = s.files k'
  view : live.card ≤ maxEntries → out.2.view S parse k live = s.view S parse k live ∨
    ∃ before after, s.view S parse k live = .ok before ∧ out.2.view S parse k live = .ok after ∧
      Snapshot.Marked request before after
  works : ∀ snap, out.1 = .ok snap → s.storageFailed = false
  stored : ∀ snap, out.1 = .ok snap → out.2.view S parse k live = .ok snap
  read : ∀ snap, out.1 = .ok snap → ∃ e ∈ snap.entries,
    e.event.matches request.session request.eventId = true ∧ e.unread = false
  ok : live.card ≤ maxEntries → ∀ snap, out.1 = .ok snap →
    ∃ before, s.view S parse k live = .ok before ∧ Snapshot.Marked request before snap

/-- An acknowledgement that is refused changes nothing. -/
theorem AckSpec.error (h : s.Inv S parse) (e : Error) :
    AckSpec S parse s k request live (.error e, s) :=
  ⟨h, rfl, rfl, fun _ _ => rfl, fun _ => .inl rfl, fun snap hsnap => (by cases hsnap),
    fun snap hsnap => (by cases hsnap), fun snap hsnap => (by cases hsnap),
    fun _ snap hsnap => (by cases hsnap)⟩

/-- **An acknowledgement** marks its entry, if it does anything. -/
theorem State.acknowledge_spec (hserde : ReadsFiles S) (hparse : PlainTimes parse)
    (h : s.Inv S parse) (hk : k ≠ eventsFile) (env : AckEnv) :
    AckSpec S parse s k request live (s.acknowledge S parse k request live env) := by
  have hsame : ∀ e : Error, AckSpec S parse s k request live (.error e, s) :=
    fun e => .error h e
  unfold State.acknowledge
  split
  · exact hsame _
  · next hworks =>
    rw [Bool.not_eq_true] at hworks
    split
    · exact hsame _
    · split
      · exact hsame _
      · next hchecked =>
        rw [not_or, not_not] at hchecked
        -- the session lives, so its entry is in the snapshot
        have hlive := hchecked.1
        split
        · exact hsame _
        · next event hfind =>
          split
          · exact hsame _
          · next reads hload =>
            obtain ⟨hreads, hdisk⟩ := loadValid_ok hload
            have hbefore : s.view S parse k live = .ok (s.snapshot reads live) := by
              unfold State.view
              rw [hdisk]
              rfl
            -- is there a receipt already?
            split
            · next hread =>
              have hview : (s.cache k reads).view S parse k live =
                  .ok (s.snapshot reads live) := hbefore
              -- the receipt is there already: nothing is written
              refine ⟨h.cache hk hdisk, rfl, rfl, fun _ _ => rfl, fun _ => .inl rfl,
                fun _ _ => hworks, fun snap hsnap => ?_, fun snap hsnap => ?_,
                fun _ snap hsnap => ?_⟩ <;> obtain rfl := Except.ok.inj hsnap
              · exact hview
              · exact snapshot_read (s := s.cache k reads) hfind hlive hread
              · exact ⟨_, hbefore, marked_self hfind hread⟩
            · dsimp only
              split
              · exact hsame _
              · next hvalid =>
                rw [Bool.not_eq_true, Bool.not_eq_false'] at hvalid
                split
                · exact hsame _
                · split
                  · exact hsame _
                  · have hput := h.putReads hk (encode S (reads.acknowledged event live))
                    have hloaded : loadValid S parse
                        (s.put k (encode S (reads.acknowledged event live))).files k true =
                          .ok (reads.acknowledged event live) :=
                      loadValid_encode hserde hparse hvalid (by rw [State.files_put, if_pos rfl])
                    -- what is said of any state with this ledger and this file of receipts
                    have hmarked : live.card ≤ maxEntries → ∀ s' : State, s'.ledger = s.ledger →
                        Snapshot.Marked request (s.snapshot reads live)
                          (s'.snapshot (reads.acknowledged event live) live) :=
                      fun hcard s' hs' => marked_acknowledged h.valid hreads hfind hlive hcard hs'
                    have hview : ∀ s' : State,
                        s'.files = (s.put k (encode S (reads.acknowledged event live))).files →
                        s'.view S parse k live =
                          .ok (s'.snapshot (reads.acknowledged event live) live) := by
                      intro s' hs'
                      unfold State.view
                      rw [hs', hloaded]
                      rfl
                    have hothers : ∀ k', k' ≠ k →
                        (s.put k (encode S (reads.acknowledged event live))).files
                          k' = s.files k' :=
                      fun k' hne => if_neg hne
                    rcases s.write_cases k (encode S (reads.acknowledged event live))
                      env.outcome with
                      hw | hw | hw
                    · -- the file was replaced
                      rw [hw, if_pos rfl, ← State.cache_forget]
                      refine ⟨hput.cache hk hloaded, rfl, rfl, hothers, fun hcard => ?_,
                        fun _ _ => hworks, fun snap hsnap => ?_, fun snap hsnap => ?_,
                        fun hcard snap hsnap => ?_⟩
                      · exact .inr ⟨_, _, hbefore, hview _ rfl, hmarked hcard _ rfl⟩
                      · obtain rfl := Except.ok.inj hsnap
                        exact hview _ rfl
                      · obtain rfl := Except.ok.inj hsnap
                        exact snapshot_read (s := ((s.put k (encode S
                          (reads.acknowledged event live))).forget k).cache k _) hfind hlive
                            (List.mem_append_right _ (List.mem_singleton_self _))
                      · obtain rfl := Except.ok.inj hsnap
                        exact ⟨_, hbefore, hmarked hcard _ rfl⟩
                    · -- the file was not replaced
                      rw [hw, if_neg Bool.false_ne_true]
                      exact ⟨h.forget k, rfl, rfl, fun _ _ => rfl, fun _ => .inl rfl,
                        fun snap hsnap => (by cases hsnap), fun snap hsnap => (by cases hsnap),
                        fun snap hsnap => (by cases hsnap), fun _ snap hsnap => (by cases hsnap)⟩
                    · -- the file was replaced although the write failed
                      rw [hw, if_neg Bool.false_ne_true]
                      refine ⟨hput, rfl, rfl, hothers, fun hcard => ?_,
                        fun snap hsnap => (by cases hsnap), fun snap hsnap => (by cases hsnap),
                        fun snap hsnap => (by cases hsnap), fun _ snap hsnap => (by cases hsnap)⟩
                      exact .inr ⟨_, _, hbefore, hview _ rfl, hmarked hcard _ rfl⟩

end

/-! ### Runs

Every call keeps the agreement, and with it the answers of the past are those of a store opened
anew. -/

section

variable {S : Serde} {parse : String → Option DateTime} {ι : Type} {A : Accounts ι}
  {sha256 : List UInt8 → Key} {s : State} {live : Finset SessionIdentity} {request : ReadRequest}
  {snap : Snapshot}

/-- The file of an account is not the file of the ledger. -/
theorem accountKey_ne (A : Accounts ι) (sha256 : List UInt8 → Key) (i : ι) :
    accountKey A sha256 i ≠ eventsFile := by
  intro h
  have hlen := congrArg (fun name => name.toList.length) h
  simp [accountKey, filename, eventsFile, length_hexOf] at hlen

/-- The call marks its entry as well, if it gets that far. -/
theorem acknowledge_spec (hserde : ReadsFiles S) (hparse : PlainTimes parse) (h : s.Inv S parse)
    {k : String} (hk : k ≠ eventsFile) (request : ReadRequest) (live : Finset SessionIdentity)
    (env : AckEnv) :
    AckSpec S parse s k request live (Store.acknowledge S parse s k request live env) := by
  have hsame : ∀ e : Error, AckSpec S parse s k request live (.error e, s) := fun e => .error h e
  unfold Store.acknowledge
  split
  · exact hsame _
  · split
    · exact hsame _
    · exact State.acknowledge_spec hserde hparse h hk env

/-- **A call** keeps memory and disk in agreement. -/
theorem step_inv (A : Accounts ι) (sha256 : List UInt8 → Key) (hserde : ReadsFiles S)
    (hparse : PlainTimes parse) (h : s.Inv S parse)
    (call : Call ι) : (s.step S parse A sha256 call).Inv S parse ∧
      s.Advances parse (s.step S parse A sha256 call) := by
  cases call with
  | record event env =>
    show (Store.record S parse s event env).2.Inv S parse ∧
      s.Advances parse (Store.record S parse s event env).2
    unfold Store.record
    split
    · exact ⟨h, .inl rfl⟩
    · exact State.record_spec hserde hparse h event env
  | get i live env =>
    have hspec := get_spec h (accountKey_ne A sha256 i) live env
    exact ⟨hspec.inv, .inl hspec.ledger⟩
  | acknowledge i request live env =>
    have hspec := acknowledge_spec hserde hparse h (accountKey_ne A sha256 i)
      request live env
    exact ⟨hspec.inv, .inl hspec.ledger⟩

/-- **Run lemma.** Memory and disk agree after every run. -/
theorem run_inv (hserde : ReadsFiles S) (hparse : PlainTimes parse) (h : s.Inv S parse)
    (calls : List (Call ι)) : (s.run S parse A sha256 calls).Inv S parse := by
  induction calls generalizing s with
  | nil => exact h
  | cons call calls ih => exact ih (step_inv A sha256 hserde hparse h call).1

/-- Memory and disk agree when the store is opened. -/
theorem open_inv {files : Files} {readable : Bool} (h : Store.open S parse files readable = .ok s) :
    s.Inv S parse := by
  unfold Store.open at h
  cases hload : loadValid S parse files eventsFile readable with
  | error e =>
    rw [hload] at h
    cases h
  | ok ledger =>
    rw [hload] at h
    cases h
    obtain ⟨hvalid, hdisk⟩ := loadValid_ok hload
    exact ⟨fun _ => hdisk, hvalid, fun e he => (by cases he), List.nodup_nil, Nat.zero_le _⟩

/-- Memory and disk agree in every state that is reached. -/
theorem State.Reachable.inv (hserde : ReadsFiles S) (hparse : PlainTimes parse)
    (h : s.Reachable S parse A sha256) : s.Inv S parse := by
  obtain ⟨files, readable, opened, calls, hopen, rfl⟩ := h
  exact run_inv hserde hparse (open_inv hopen) calls

/-- An event that is entered takes the next number. -/
theorem recorded_revision {event : Event} {ledger next : Rows}
    (h : ledger.recorded parse event = some next) (hledger : ledger.valid parse = true) :
    next.revision.toInt = ledger.revision.toInt + 1 := by
  unfold Rows.recorded at h
  dsimp only at h
  split at h
  · cases h
  · cases h
    exact toInt_revision_succ hledger

/-- **The sequence stands for the ledger.**  It never falls, and where two snapshots of a run have
    the same sequence, the ledger behind them is the same. -/
theorem sequence_identifies (hserde : ReadsFiles S) (hparse : PlainTimes parse)
    (h : s.Reachable S parse A sha256) (calls : List (Call ι)) :
    s.ledger.revision ≤ (s.run S parse A sha256 calls).ledger.revision ∧
      ((s.run S parse A sha256 calls).ledger.revision = s.ledger.revision →
        (s.run S parse A sha256 calls).ledger = s.ledger) := by
  have hrun : ∀ s : State, s.Inv S parse →
      (s.run S parse A sha256 calls).ledger = s.ledger ∨
        s.ledger.revision.toInt < (s.run S parse A sha256 calls).ledger.revision.toInt := by
    induction calls with
    | nil => exact fun s _ => .inl rfl
    | cons call calls ih =>
      intro s hs
      obtain ⟨hstep, hadvance⟩ := step_inv A sha256 hserde hparse hs call
      have hafter := ih _ hstep
      show ((s.step S parse A sha256 call).run S parse A sha256 calls).ledger = _ ∨ _
      rcases hadvance with hsame | ⟨event, -, hnext⟩
      · rw [hsame] at hafter
        exact hafter
      · have hone := recorded_revision hnext hs.valid
        right
        rcases hafter with hafter | hafter
        · show _ < ((s.step S parse A sha256 call).run S parse A sha256 calls).ledger.revision.toInt
          rw [hafter]
          omega
        · exact Int.lt_trans (by omega) hafter
  rw [Int64.le_iff_toInt_le]
  rcases hrun s (h.inv hserde hparse) with hsame | hless
  · rw [hsame]
    exact ⟨Int.le_refl _, fun _ => rfl⟩
  · refine ⟨Int.le_of_lt hless, fun heq => ?_⟩
    rw [heq] at hless
    exact absurd hless (Int.lt_irrefl _)

/-- What `get` returns when nothing fails and nobody refuses it. -/
def State.answer (S : Serde) (parse : String → Option DateTime) (s : State) (k : String)
    (live : Finset SessionIdentity) : Except Error Snapshot :=
  (Store.get S parse s k live ⟨true, false, true, none, true, true⟩).1

/-- A store that works answers with the view. -/
theorem State.Inv.answer (h : s.Inv S parse) (k : String) : s.answer S parse k live =
    if s.storageFailed then .error .unavailable else s.view S parse k live := by
  unfold State.answer Store.get
  dsimp only
  rw [Bool.not_true, if_neg Bool.false_ne_true, if_neg Bool.false_ne_true,
    if_neg Bool.false_ne_true]
  split
  · rfl
  · next hworks =>
    cases hcached : s.cached k with
    | some reads =>
      unfold State.view
      rw [(h.coherent (k, reads) (State.cached_mem hcached)).2]
      rfl
    | none =>
      unfold State.get State.account State.view
      dsimp only
      rw [Bool.not_true, if_neg Bool.false_ne_true, if_neg hworks, hcached]
      dsimp only
      cases loadValid S parse s.files k true with
      | error e => rfl
      | ok reads => rfl

/-- A store that is opened on the directory answers as this one does. -/
theorem State.Inv.restarted (h : s.Inv S parse) (hworks : s.storageFailed = false) {k : String}
    (hview : s.view S parse k live = .ok snap) :
    ∃ restarted, Store.open S parse s.files true = .ok restarted ∧
      restarted.answer S parse k live = .ok snap := by
  have hopen : Store.open S parse s.files true = .ok ⟨s.files, false, s.ledger, []⟩ := by
    unfold Store.open
    rw [h.ledger hworks]
  refine ⟨_, hopen, ?_⟩
  rw [(open_inv hopen).answer, if_neg Bool.false_ne_true]
  exact hview

/-- **An answer is on disk.**  Whatever was called before, in whatever order, and however reads and
    writes failed: a snapshot that a store returns is what a store returns that is opened on its
    directory right after it. -/
theorem answer_restarted (hserde : ReadsFiles S) (hparse : PlainTimes parse)
    (h : s.Reachable S parse A sha256) (i : ι) (live : Finset SessionIdentity) (snap : Snapshot) :
    (∀ env, (Store.get S parse s (accountKey A sha256 i) live env).1 = .ok snap →
      ∃ restarted, Store.open S parse (Store.get S parse s (accountKey A sha256 i) live env).2.files
          true = .ok restarted ∧
        restarted.answer S parse (accountKey A sha256 i) live = .ok snap) ∧
    ∀ request env,
      (Store.acknowledge S parse s (accountKey A sha256 i) request live env).1 = .ok snap →
      ∃ restarted, Store.open S parse
          (Store.acknowledge S parse s (accountKey A sha256 i) request live env).2.files
          true = .ok restarted ∧
        restarted.answer S parse (accountKey A sha256 i) live = .ok snap := by
  have hinv := h.inv hserde hparse
  have hk := accountKey_ne A sha256 i
  constructor
  · intro env hget
    have hspec := get_spec hinv hk live env
    obtain ⟨hworks, hview⟩ := hspec.ok snap hget
    rw [hspec.files]
    exact hinv.restarted hworks hview
  · intro request env hack
    have hspec := acknowledge_spec hserde hparse hinv hk request live env
    have hworks := hspec.storage.trans (hspec.works snap hack)
    exact hspec.inv.restarted hworks (hspec.stored snap hack)

/-- **An acknowledgement marks one entry of one account.**  When it succeeds, it returns what the
    account was answered before, with the requested entry read, this entry is in it, and the account
    is answered the same from then on; when it fails, the account is answered this or what it was
    answered before.  No other account notices. -/
theorem acknowledge_marks (hserde : ReadsFiles S) (hparse : PlainTimes parse)
    (hsha : CollisionFree A sha256) (h : s.Reachable S parse A sha256) (i : ι)
    (request : ReadRequest) (live : Finset SessionIdentity) (env : AckEnv)
    (hcard : live.card ≤ maxEntries) :
    (∀ snap, (Store.acknowledge S parse s (accountKey A sha256 i) request live env).1 = .ok snap →
      (∃ before, s.answer S parse (accountKey A sha256 i) live = .ok before ∧
        Snapshot.Marked request before snap) ∧
      (∃ e ∈ snap.entries, e.event.matches request.session request.eventId = true ∧
        e.unread = false) ∧
      (Store.acknowledge S parse s (accountKey A sha256 i) request live env).2.answer S parse
        (accountKey A sha256 i) live = .ok snap) ∧
    ((Store.acknowledge S parse s (accountKey A sha256 i) request live env).2.answer S parse
        (accountKey A sha256 i) live = s.answer S parse (accountKey A sha256 i) live ∨
      ∃ before after, s.answer S parse (accountKey A sha256 i) live = .ok before ∧
        (Store.acknowledge S parse s (accountKey A sha256 i) request live env).2.answer S parse
          (accountKey A sha256 i) live = .ok after ∧ Snapshot.Marked request before after) ∧
    ∀ j, j ≠ i → ∀ live',
      (Store.acknowledge S parse s (accountKey A sha256 i) request live env).2.answer S parse
        (accountKey A sha256 j) live' = s.answer S parse (accountKey A sha256 j) live' := by
  have hinv := h.inv hserde hparse
  have hspec := acknowledge_spec hserde hparse hinv (accountKey_ne A sha256 i)
      request live env
  refine ⟨fun snap hack => ?_, ?_, fun j hj live' => ?_⟩
  -- the answer before and after is what the store has for the account
  · obtain ⟨before, hbefore, hmarked⟩ := hspec.ok hcard snap hack
    refine ⟨⟨before, ?_, hmarked⟩, hspec.read snap hack, ?_⟩
    · rw [hinv.answer, hspec.works snap hack, if_neg Bool.false_ne_true]
      exact hbefore
    · rw [hspec.inv.answer, hspec.storage, hspec.works snap hack, if_neg Bool.false_ne_true]
      exact hspec.stored snap hack
  -- a failed acknowledgement answers as before, or the store has stopped
  · rw [hspec.inv.answer, hinv.answer, hspec.storage]
    split
    · exact .inl rfl
    · exact hspec.view hcard
  -- another account has another file, since names and keys do not collide
  · have hne : accountKey A sha256 j ≠ accountKey A sha256 i := fun heq =>
      hj (UsagePreferences.key_inj hsha (UsagePreferences.filename_inj heq))
    rw [hspec.inv.answer, hinv.answer, hspec.storage]
    have hview :
      (Store.acknowledge S parse s (accountKey A sha256 i) request live env).2.view S parse
        (accountKey A sha256 j) live' = s.view S parse (accountKey A sha256 j) live' := by
      unfold State.view
      rw [loadValid_congr (hspec.others _ hne)]
      unfold State.snapshot
      rw [hspec.ledger]
    rw [hview]

/-! ### Events in any order

An event is compared with the one that the ledger has for its session, so the later one wins
whichever arrives first. -/

/-- The event of a call that records. -/
def Call.event : Call ι → Option Event
  | .record event _ => some event
  | _ => none

/-- The events of some calls. -/
def recordedEvents (calls : List (Call ι)) : List Event := calls.filterMap Call.event

/-- A call that records a valid event is admitted and writes. -/
def Call.Lands (parse : String → Option DateTime) : Call ι → Prop
  | .record event env => event.valid parse = true ∧ env.refused = none ∧ env.outcome = .done
  | _ => True

/-- An event completed after another one. -/
def Event.Newer (parse : String → Option DateTime) (a b : Event) : Prop :=
  after (parse a.completedAt) (parse b.completedAt) = true

/-- The events of a session differ in their ids and in their instants. -/
def Told (parse : String → Option DateTime) (events : List Event) : Prop :=
  ∀ a ∈ events, ∀ b ∈ events, a.session = b.session → a ≠ b →
    a.eventId ≠ b.eventId ∧ parse a.completedAt ≠ parse b.completedAt

/-- Instants come one after another. -/
theorem after_trans {t u v : Option DateTime} (htu : after t u = true) (huv : after u v = true) :
    after t v = true := by
  cases t with
  | none => exact absurd htu Bool.false_ne_true
  | some t =>
    cases u with
    | none => exact absurd huv Bool.false_ne_true
    | some u =>
      cases v with
      | none => rfl
      | some v => exact DateTime.before_trans huv htu

/-- Two instants are not after each other. -/
theorem after_asymm {t u : Option DateTime} (h : after t u = true) : ¬ after u t = true := by
  cases t with
  | none => exact absurd h Bool.false_ne_true
  | some t =>
    cases u with
    | none => exact Bool.false_ne_true
    | some u => exact Bool.eq_false_iff.mp (DateTime.before_asymm h)

/-- Of two different instants one is after the other. -/
theorem after_of_not {t u : Option DateTime} (hu : u.isSome = true) (hne : t ≠ u)
    (h : ¬ after t u = true) : after u t = true := by
  obtain ⟨u, rfl⟩ := Option.isSome_iff_exists.mp hu
  cases t with
  | none => rfl
  | some t =>
    rcases DateTime.before_or_before (fun heq => hne (congrArg some heq)) with hbefore | hbefore
    · exact hbefore
    · exact absurd hbefore h

/-- The latest of every session, after some events of `all`, no more of them than `n`. -/
structure Recorded (S : Serde) (parse : String → Option DateTime) (all : List Event) (n : ℕ)
    (seen : Event → Prop) (s : State) : Prop where
  inv : s.Inv S parse
  works : s.storageFailed = false
  latest : Latest Event.session (Event.Newer parse) seen (fun e => e ∈ s.ledger.events)
  part : ∀ e, seen e → e ∈ all
  revision : s.ledger.revision.toInt ≤ n

variable {all : List Event} {n : ℕ} {seen : Event → Prop} {event : Event}

/-- What becomes of an event: the ledger has one of its session that is the same or newer, or it
    takes the place of the one of its session. -/
theorem recorded_cases (parse : String → Option DateTime) (event : Event) {ledger : Rows}
    (hnodup : (ledger.events.map Event.session).Nodup) :
    (ledger.recorded parse event = none ∧ ∃ old ∈ ledger.events, old.session = event.session ∧
      (old.eventId = event.eventId ∨ old.Newer parse event)) ∨
    ((∀ old ∈ ledger.events, old.session = event.session →
        old.eventId ≠ event.eventId ∧ ¬ old.Newer parse event) ∧
      ∃ next, ledger.recorded parse event = some next ∧ next.revision = ledger.revision + 1 ∧
        ((ledger.events.filter fun e => e.session ≠ event.session).length < maxEntries →
          next.events = (ledger.events.filter fun e => e.session ≠ event.session) ++ [event])) := by
  unfold Rows.recorded
  dsimp only
  split
  · next hknown =>
    left
    obtain ⟨old, hfind, hold⟩ := (Option.any_eq_true _ _).mp hknown
    rw [Bool.or_eq_true, beq_iff_eq] at hold
    exact ⟨rfl, old, List.mem_of_find?_eq_some hfind, by simpa using List.find?_some hfind, hold⟩
  · next hknown =>
    right
    refine ⟨fun old hold hsession => ?_, _, rfl, rfl, fun hroom => ?_⟩
    · have hfind :
        (ledger.events.find? fun e => decide (e.session = event.session)) = some old := by
        cases hfind : ledger.events.find? fun e => decide (e.session = event.session) with
        | none =>
          have hnone := List.find?_eq_none.mp hfind old hold
          exact absurd (decide_eq_true hsession) hnone
        | some old' =>
          have hsession' : old'.session = event.session := by simpa using List.find?_some hfind
          have hmem := List.mem_of_find?_eq_some hfind
          rw [List.inj_on_of_nodup_map hnodup hmem hold (hsession'.trans hsession.symm)]
      rw [hfind, Option.any_some, Bool.or_eq_true, beq_iff_eq, not_or] at hknown
      exact hknown
    · show (if _ then _ else _) ++ [event] = _
      rw [if_neg (Nat.ne_of_lt hroom)]

/-- There is room for the sessions of the events. -/
theorem Recorded.room (h : Recorded S parse all n seen s) (hevent : event ∈ all)
    (hsessions : (all.map Event.session).toFinset.card ≤ maxEntries) :
    (s.ledger.events.filter fun e => e.session ≠ event.session).length < maxEntries := by
  have hpart : ((s.ledger.events.filter fun e => e.session ≠ event.session).map
      Event.session).Nodup :=
    (rows_valid.mp h.inv.valid).2.2.2.sublist (List.filter_sublist.map _)
  have hmem : event.session ∈ (all.map Event.session).toFinset :=
    List.mem_toFinset.mpr (List.mem_map_of_mem hevent)
  refine Nat.lt_of_lt_of_le (length_others hpart hmem fun e he => ?_) hsessions
  obtain ⟨hledger, hother⟩ := List.mem_filter.mp he
  exact ⟨of_decide_eq_true hother,
    List.mem_toFinset.mpr (List.mem_map_of_mem (h.part e (h.latest.arrived e hledger)))⟩

/-- **An event arrives**: it is entered when it is the latest of its session. -/
theorem Recorded.record (hserde : ReadsFiles S) (hparse : PlainTimes parse)
    (h : Recorded S parse all n seen s) (hevent : event ∈ all) (hvalid : event.valid parse = true)
    (htold : Told parse all) (hsessions : (all.map Event.session).toFinset.card ≤ maxEntries)
    (hfew : (n : ℤ) + 1 < maxRevision.toInt) (env : RecordEnv) (hdone : env.outcome = .done) :
    Recorded S parse all (n + 1) (fun e => seen e ∨ e = event) (s.record S parse event env).2 := by
  -- what has arrived is part of all events
  have hpart : ∀ e, seen e ∨ e = event → e ∈ all := by
    rintro e (he | rfl)
    · exact h.part e he
    · exact hevent
  have hledger := rows_valid.mp h.inv.valid
  unfold State.record
  rw [if_neg (Bool.eq_false_iff.mp h.works), hvalid, Bool.not_true, if_neg Bool.false_ne_true]
  rcases recorded_cases parse event hledger.2.2.2 with
    ⟨hnone, old, hold, hsession, hlate⟩ | ⟨hlatest, next, hnext, hrevision, hentered⟩
  · -- the ledger has this event, or a newer one of its session
    have hsame : old = event ∨ old.Newer parse event := by
      by_cases heq : old = event
      · exact .inl heq
      · have hids := (htold old (h.part old (h.latest.arrived old hold)) event hevent
          hsession heq).1
        exact .inr (hlate.resolve_left hids)
    rw [hnone]
    refine ⟨h.inv, h.works, h.latest.skip hold hsession hsame, hpart, ?_⟩
    exact Int.le_trans h.revision (by omega)
  -- the event is entered in the place of the one of its session
  · have hevents := hentered (h.room hevent hsessions)
    have hnumber := recorded_revision hnext h.inv.valid
    have hbound := h.revision
    have hmem : ∀ e, e ∈ next.events ↔
        (e ∈ s.ledger.events ∧ e.session ≠ event.session) ∨ e = event := by
      intro e
      rw [hevents, List.mem_append, List.mem_filter, decide_eq_true_eq, List.mem_singleton]
    -- the next ledger is valid, so it is written
    have hnextvalid : next.valid parse = true := by
      refine rows_valid.mpr ⟨⟨?_, ?_⟩, ?_, ?_, ?_⟩
      · have hlow := hledger.1.1
        rw [Int64.le_iff_toInt_le] at hlow ⊢
        omega
      · rw [Int64.lt_iff_toInt_lt]
        omega
      · have hroom := h.room hevent hsessions
        rw [hevents, List.length_append, List.length_singleton]
        omega
      · intro e he
        rcases (hmem e).mp he with ⟨he, -⟩ | rfl
        · exact hledger.2.2.1 e he
        · exact hvalid
      · rw [hevents, List.map_append, List.nodup_append]
        refine ⟨hledger.2.2.2.sublist (List.filter_sublist.map _), List.nodup_singleton _, ?_⟩
        intro m hm m' hm'
        obtain ⟨e, he, rfl⟩ := List.mem_map.mp hm
        rw [List.map_singleton, List.mem_singleton] at hm'
        rw [hm']
        exact of_decide_eq_true (List.mem_filter.mp he).2
    rw [hnext]
    dsimp only
    rw [hnextvalid, Bool.not_true, if_neg Bool.false_ne_true, hdone]
    show Recorded S parse all (n + 1) _ { s.put eventsFile (encode S next) with ledger := next }
    refine ⟨h.inv.putLedger hserde hparse hnextvalid, h.works, ?_, hpart, ?_⟩
    · refine h.latest.insert (fun _ _ _ => after_trans) ?_ hmem
      intro old hold hsession
      have hne : old ≠ event := by
        rintro rfl
        exact (hlatest old hold rfl).1 rfl
      have htimes := (htold old (h.part old (h.latest.arrived old hold)) event hevent
        hsession hne).2
      have hparsed : (parse event.completedAt).isSome = true := by
        unfold Event.valid at hvalid
        rw [Bool.and_eq_true] at hvalid
        exact hvalid.2
      exact after_of_not hparsed htimes (hlatest old hold hsession).2
    · show next.revision.toInt ≤ ((n + 1 : ℕ) : ℤ)
      omega

/-- **Run lemma.** The ledger has the latest of every session after every run. -/
theorem Recorded.run (A : Accounts ι) (sha256 : List UInt8 → Key) (hserde : ReadsFiles S)
    (hparse : PlainTimes parse)
    (htold : Told parse all) (hsessions : (all.map Event.session).toFinset.card ≤ maxEntries)
    {calls : List (Call ι)} (h : Recorded S parse all n seen s)
    (hlands : ∀ call ∈ calls, call.Lands parse) (hall : ∀ e ∈ recordedEvents calls, e ∈ all)
    (hfew : (n : ℤ) + (recordedEvents calls).length < maxRevision.toInt) :
    ∃ m, Recorded S parse all m (fun e => seen e ∨ e ∈ recordedEvents calls)
      (s.run S parse A sha256 calls) := by
  induction calls generalizing n seen s with
  | nil =>
    refine ⟨n, h.inv, h.works, ?_, fun e he => h.part e ?_, h.revision⟩
    · have hseen : (fun e => seen e ∨ e ∈ recordedEvents ([] : List (Call ι))) = seen := by
        funext e
        exact propext (or_iff_left fun he => by cases he)
      rw [hseen]
      exact h.latest
    · exact he.resolve_right fun he => by cases he
  | cons call calls ih =>
    have hrest : ∀ c ∈ calls, c.Lands parse := fun c hc => hlands c (List.mem_cons_of_mem _ hc)
    cases call with
    | record event env =>
      obtain ⟨hvalid, hrefused, hdone⟩ := hlands _ List.mem_cons_self
      have hlen : (recordedEvents (Call.record event env :: calls)).length =
          (recordedEvents calls).length + 1 := rfl
      rw [hlen] at hfew
      -- an event is entered, or was there
      have hstep := h.record hserde hparse (hall event List.mem_cons_self) hvalid htold hsessions
        (by omega) env hdone
      have hstate : s.step S parse A sha256 (.record event env) =
          (s.record S parse event env).2 := by
        show (Store.record S parse s event env).2 = _
        unfold Store.record
        rw [hrefused]
      obtain ⟨m, hm⟩ := ih hstep hrest (fun e he => hall e (List.mem_cons_of_mem _ he))
        (by push_cast at hfew ⊢; omega)
      refine ⟨m, ?_⟩
      show Recorded S parse all m _ ((s.step S parse A sha256 (.record event env)).run S parse A
        sha256 calls)
      have hseen : (fun e => seen e ∨ e ∈ recordedEvents (Call.record event env :: calls)) =
          fun e => (seen e ∨ e = event) ∨ e ∈ recordedEvents calls := by
        funext e
        rw [or_assoc]
        exact propext (or_congr_right List.mem_cons)
      rw [hstate, hseen]
      exact hm
    | get i live env =>
      -- what reads changes no ledger
      have hspec := get_spec h.inv (accountKey_ne A sha256 i) live env
      refine ih ⟨hspec.inv, hspec.storage.trans h.works, ?_, h.part, ?_⟩ hrest hall hfew
      · show Latest _ _ _ fun e => e ∈ (Store.get S parse s _ live env).2.ledger.events
        rw [hspec.ledger]
        exact h.latest
      · show (Store.get S parse s _ live env).2.ledger.revision.toInt ≤ n
        rw [hspec.ledger]
        exact h.revision
    | acknowledge i request live env =>
      -- neither does a receipt
      have hspec := acknowledge_spec hserde hparse h.inv (accountKey_ne A sha256 i)
        request live env
      refine ih ⟨hspec.inv, hspec.storage.trans h.works, ?_, h.part, ?_⟩ hrest hall hfew
      · show Latest _ _ _ fun e =>
          e ∈ (Store.acknowledge S parse s _ request live env).2.ledger.events
        rw [hspec.ledger]
        exact h.latest
      · show (Store.acknowledge S parse s _ request live env).2.ledger.revision.toInt ≤ n
        rw [hspec.ledger]
        exact h.revision

/-- **The ledger has the latest event of every session**, in whatever order the events arrive and
    whatever is read and acknowledged between them: what it has in the end follows from the events
    alone. -/
theorem recorded_latest (hserde : ReadsFiles S) (hparse : PlainTimes parse) {files : Files}
    {readable : Bool} {opened : State} (hfresh : files eventsFile = none)
    (hopen : Store.open S parse files readable = .ok opened) (calls : List (Call ι))
    (hlands : ∀ call ∈ calls, call.Lands parse) (htold : Told parse (recordedEvents calls))
    (hsessions : ((recordedEvents calls).map Event.session).toFinset.card ≤ maxEntries)
    (hfew : (recordedEvents calls).length < maxRevision.toInt) (e : Event) :
    e ∈ (opened.run S parse A sha256 calls).ledger.events ↔ e ∈ recordedEvents calls ∧
      ∀ f ∈ recordedEvents calls, f.session = e.session → f = e ∨ e.Newer parse f := by
  have hinv := open_inv hopen
  -- without a file the store opens with the first ledger
  have hinitial : opened.ledger = Rows.initial ∧ opened.storageFailed = false := by
    unfold Store.open at hopen
    cases hload : loadValid S parse files eventsFile readable with
    | error e =>
      rw [hload] at hopen
      cases hopen
    | ok ledger =>
      have hdisk := (loadValid_ok hload).2
      unfold loadValid load at hdisk
      rw [hfresh] at hdisk
      dsimp only at hdisk
      rw [Bool.not_true, if_neg Bool.false_ne_true] at hdisk
      rw [hload] at hopen
      cases hopen
      dsimp only at hdisk
      split at hdisk
      · cases hdisk
        exact ⟨rfl, rfl⟩
      · cases hdisk
  -- which has no event, as no event was told
  have hstart : Recorded S parse (recordedEvents calls) 0 (fun _ => False) opened := by
    refine ⟨hinv, hinitial.2, ?_, fun e he => he.elim, ?_⟩
    · rw [hinitial.1]
      have hnone : (fun e : Event => e ∈ Rows.initial.events) = fun _ => False := by
        funext e
        exact propext ⟨fun he => (by cases he), fun he => he.elim⟩
      rw [hnone]
      exact Latest.empty
    · rw [hinitial.1]
      exact Int.le_refl _
  obtain ⟨m, hend⟩ := hstart.run A sha256 hserde hparse htold hsessions hlands
    (fun e he => he) (by push_cast; omega)
  rw [hend.latest.kept_iff fun _ _ => after_asymm]
  simp only [false_or]

end

/-! ### Two events of a session

Two turns of one session, recorded in the wrong order, read and acknowledged, with a write that
fails. -/

namespace ReceiptsExample

open Json.Compact
open UsagePreferences.RegisterExample (accounts sha256 collisionFree)

/-- What the serializer writes it reads back. -/
theorem compact_reads : ReadsFiles serde := by
  intro r
  refine serde_reads (plain_object (plainPut_map.mpr (plainPut_and.mpr ⟨plainPut_slot rfl, ?_⟩)))
  have hevent : ∀ e : Event, plain (eventCodec.write e) = true := by
    intro e
    refine plain_object (plainPut_map.mpr (plainPut_and.mpr ⟨plainPut_slot rfl,
      plainPut_and.mpr ⟨plainPut_slot rfl, plainPut_slot rfl⟩⟩))
  have hitems : ∀ l : List Event, plainItems (l.map eventCodec.write) = true := by
    intro l
    induction l with
    | nil => rfl
    | cons e l ih =>
      rw [List.map_cons, plainItems, hevent e, ih]
      rfl
  exact plainPut_slot (hitems r.events)

/-- The instants of the example. -/
def parse (s : String) : Option DateTime :=
  if s = "2026-01-01T00:00:00Z" then some (.ofNanos 1767225600000000000)
  else if s = "2026-01-01T00:00:01Z" then some (.ofNanos 1767225601000000000)
  else none

/-- The times of the example are plain texts. -/
theorem plainTimes : PlainTimes parse := by
  intro s hs
  unfold parse at hs
  split at hs
  · next heq =>
    rw [heq]
    decide
  · split at hs
    · next heq =>
      rw [heq]
      decide
    · cases hs

def session : SessionIdentity := ⟨"$1", 1700000000⟩

/-- Two turns of the session. -/
def first : Event := ⟨session, String.ofList (List.replicate 64 'a'), "2026-01-01T00:00:00Z"⟩

def second : Event := ⟨session, String.ofList (List.replicate 64 'b'), "2026-01-01T00:00:01Z"⟩

/-- A directory without files, and the store that was opened on it. -/
def files : Files := fun _ => none

def opened : State := ⟨files, false, .initial, []⟩

/-- An empty directory is opened as an empty store. -/
theorem open_files : Store.open serde parse files true = .ok opened := rfl

/-- The second event arrives first. -/
def swapped : List (Call Bool) :=
  [.record second ⟨none, .done, true⟩, .record first ⟨none, .done, true⟩]

theorem second_stays : second ∈ (opened.run serde parse accounts sha256 swapped).ledger.events := by
  refine (recorded_latest compact_reads plainTimes rfl open_files swapped ?_ ?_ ?_ ?_ second).mpr ?_
  · intro call hcall
    rcases List.mem_cons.mp hcall with rfl | hcall
    · exact ⟨by decide +kernel, rfl, rfl⟩
    · rcases List.mem_singleton.mp hcall with rfl
      exact ⟨by decide +kernel, rfl, rfl⟩
  · unfold Told
    decide +kernel
  · decide +kernel
  · decide
  · unfold Event.Newer
    decide +kernel

/-- A session with an event that nobody has read. -/
def unread : State := opened.run serde parse accounts sha256 [.record first ⟨none, .done, true⟩]

/-- The state with one event is reached. -/
theorem unread_reachable : unread.Reachable serde parse accounts sha256 :=
  ⟨files, true, opened, _, open_files, rfl⟩

/-- What one of the accounts reads. -/
def request : ReadRequest := ⟨session, first.eventId⟩

def admitted : AckEnv := ⟨none, true, true, true, true, true, .done⟩

/-- The first account reads the event. -/
theorem read_returned : (Store.acknowledge serde parse unread (accountKey accounts sha256 true)
    request {session} admitted).1 = .ok ⟨1, 1, 1, [⟨first, false⟩]⟩ := by
  rfl

/-- The store that is opened afterwards answers the same. -/
theorem read_restarted : ∃ restarted, Store.open serde parse (Store.acknowledge serde parse unread
      (accountKey accounts sha256 true) request {session} admitted).2.files true = .ok restarted ∧
    restarted.answer serde parse (accountKey accounts sha256 true) {session} =
      .ok ⟨1, 1, 1, [⟨first, false⟩]⟩ :=
  (answer_restarted compact_reads plainTimes unread_reachable true {session} _).2 request admitted
    read_returned

/-- Nobody had read the entry before, the account is answered the same afterwards, and the other
    account still has not read it. -/
theorem one_read : (∃ before, unread.answer serde parse (accountKey accounts sha256 true)
      {session} = .ok before ∧ Snapshot.Marked request before ⟨1, 1, 1, [⟨first, false⟩]⟩) ∧
    (Store.acknowledge serde parse unread (accountKey accounts sha256 true) request {session}
      admitted).2.answer serde parse (accountKey accounts sha256 true) {session} =
        .ok ⟨1, 1, 1, [⟨first, false⟩]⟩ ∧
    (Store.acknowledge serde parse unread (accountKey accounts sha256 true) request {session}
      admitted).2.answer serde parse (accountKey accounts sha256 false) {session} =
        unread.answer serde parse (accountKey accounts sha256 false) {session} := by
  obtain ⟨hok, -, hothers⟩ := acknowledge_marks compact_reads plainTimes collisionFree
    unread_reachable true request {session} admitted (by decide)
  obtain ⟨hmarked, -, hanswer⟩ := hok _ read_returned
  exact ⟨hmarked, hanswer, hothers false (by decide) {session}⟩

/-- A newer event is recorded and read. -/
def busy : List (Call Bool) :=
  [.record second ⟨none, .done, true⟩,
    .acknowledge true ⟨session, second.eventId⟩ {session} admitted]

/-- A newer event that cannot be written, and an older one that is known. -/
def quiet : List (Call Bool) :=
  [.record second ⟨none, .beforeCommit, true⟩, .record first ⟨none, .done, true⟩]

/-- Neither the failed write nor the old event moves the sequence. -/
theorem quiet_sequence : (unread.run serde parse accounts sha256 quiet).ledger.revision =
    unread.ledger.revision := by
  decide +kernel

/-- The sequence does not fall in a run that records; where it stays, the ledger does. -/
theorem sequence_kept :
    unread.ledger.revision ≤ (unread.run serde parse accounts sha256 busy).ledger.revision ∧
      (unread.run serde parse accounts sha256 quiet).ledger = unread.ledger :=
  ⟨(sequence_identifies compact_reads plainTimes unread_reachable busy).1,
    (sequence_identifies compact_reads plainTimes unread_reachable quiet).2 quiet_sequence⟩

end ReceiptsExample

end Hmux.TabCompletions
