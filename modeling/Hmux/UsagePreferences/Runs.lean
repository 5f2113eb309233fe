import Hmux.Lib.Json.Reader
import Hmux.UsagePreferences.Store

namespace Hmux.UsagePreferences

open Lib

/-!
# Usage preferences are a register of every account

`onDisk` is the value of an account: what its file decodes to, or the preferences an account
starts with.  Between the steps of a store every file is one the store wrote and every entry of
the cache is the value on disk (`State.Inv`), whichever writes and reads failed before.

* `set_cases` — what a transaction can do: leave the files alone, or replace one file by the
  next revision of the value it had;
* `step_spec` — what every step of a store does to the values and tells its caller;
* `register_of_run` — the run: the revisions that committed writes carried are 0, 1, 2, … in
  this order, for every account on its own.

A write that fails may still have replaced the file, and the caller is told of the failure only.
Such a write counts as committed: the next reader sees its value, and the revision it carried is
used up.  The statement is therefore about the writes that reached the file and not about the
answers, and an answer `Ok` is one of them.
-/

/-! ### Files

The name of a file is a digest of the account, so two accounts have one file only when their
digests collide. -/

/-- Every key has its own file. -/
theorem filename_inj {k k' : Key} (h : filename k = filename k') : k = k' := by
  unfold filename at h
  have hlist := congrArg String.toList h
  simp only [String.toList_append, String.toList_ofList] at hlist
  exact Vector.toList_inj.mp (hexOf_inj (List.append_cancel_right hlist))

/-- The first zero separates the two parts. -/
theorem append_zero_inj {u u' p p' : List UInt8} (hu : 0 ∉ u) (hu' : 0 ∉ u')
    (h : u ++ 0 :: p = u' ++ 0 :: p') : u = u' ∧ p = p' := by
  induction u generalizing u' with
  | nil =>
    cases u' with
    | nil => exact ⟨rfl, (List.cons.inj h).2⟩
    | cons b u' => exact absurd (List.cons.inj h).1 fun hb => hu' (hb ▸ List.mem_cons_self)
  | cons a u ih =>
    cases u' with
    | nil => exact absurd (List.cons.inj h).1.symm fun ha => hu (ha ▸ List.mem_cons_self)
    | cons b u' =>
      obtain ⟨hhead, htail⟩ := List.cons.inj h
      obtain ⟨hu, hp⟩ := ih (fun h => hu (List.mem_cons_of_mem _ h))
        (fun h => hu' (List.mem_cons_of_mem _ h)) htail
      exact ⟨by rw [hhead, hu], hp⟩

section

variable {ι : Type} {A : Accounts ι} {sha256 : List UInt8 → Key}

/-- No two accounts collide. -/
def CollisionFree (A : Accounts ι) (sha256 : List UInt8 → Key) : Prop :=
  ∀ i j, sha256 (preimage A i) = sha256 (preimage A j) → preimage A i = preimage A j

/-- Every account has its own key. -/
theorem key_inj (h : CollisionFree A sha256) {i j : ι} (hkey : key A sha256 i = key A sha256 j) :
    i = j := by
  obtain ⟨husername, hprofile⟩ := append_zero_inj (A.noNul i) (A.noNul j) (h i j hkey)
  exact A.distinct i j (bytes_inj.mp husername) (bytes_inj.mp hprofile)

end

/-! ### The format

What is written is a valid value with the next revision, and it is read back. -/

section

variable {S : Serde} {v : Preferences}

/-- The library reads back the text of every preferences. -/
def ReadsFiles (S : Serde) : Prop := ∀ v, v.valid = true → S.Reads (preferencesCodec.write v)

/-- Preferences are read back from their JSON. -/
theorem preferences_reads (v : Preferences) : preferencesCodec.Reads v := by
  have hprovider : ∀ p, providerCodec.Reads p := by
    intro p
    unfold providerCodec
    rw [Codec.objectOrNull_reads (by decide)]
    refine Fields.map_reads rfl ?_
    rw [Fields.and_reads, Fields.defaulted_reads, Fields.defaulted_reads]
    exact ⟨Codec.nullDefault_reads Json.noConfusion (Codec.bool_reads _),
      Codec.nullDefault_reads Json.noConfusion (Codec.string_reads _)⟩
  unfold preferencesCodec
  rw [Codec.object_reads (by decide)]
  refine Fields.map_reads rfl ?_
  simp only [Fields.and_reads, Fields.defaulted_reads]
  exact ⟨Codec.nullDefault_reads Json.noConfusion (Codec.int64_reads _),
    Codec.nullDefault_reads Json.noConfusion (Codec.int64_reads _), hprovider _, hprovider _⟩

/-- A provider whose source is one of the known ones. -/
theorem length_provider {p : ProviderPreference} (h : (bytes p.source).length ≤ 8) :
    (Json.text S.format (providerCodec.write p)).length ≤ 96 := by
  have hquote := Json.length_quote_le p.source
  have hbool : (Json.text S.format (.bool p.enabled)).length ≤ 5 := by
    rw [Json.text]
    cases p.enabled <;> decide
  show (Json.text S.format (.obj [("enabled", .bool p.enabled), ("source", .str p.source)])).length
    ≤ 96
  rw [Json.length_text_obj_cons, Json.length_textMoreFields_cons, Json.length_textMoreFields_nil,
    show (Json.quote "enabled").length = 9 by decide,
    show (Json.quote "source").length = 8 by decide]
  rw [show Json.text S.format (.str p.source) = Json.quote p.source by rw [Json.text]]
  omega

/-- Valid preferences are short. -/
theorem length_encode (h : v.valid = true) : (encode S v).length ≤ maxBytes := by
  have hshort : ∀ s : String, (s == "cli" || s == "cswap" || s == "codex-lb") = true →
      (bytes s).length ≤ 8 := by
    intro s hs
    simp only [Bool.or_eq_true, beq_iff_eq] at hs
    rcases hs with (rfl | rfl) | rfl
    · decide
    · decide
    · decide
  unfold Preferences.valid at h
  simp only [Bool.and_eq_true] at h
  obtain ⟨⟨-, hclaude⟩, hcodex⟩ := h
  have hclaude := length_provider (S := S) (p := v.claude) (hshort _ (by simp_all))
  have hcodex := length_provider (S := S) (p := v.codex) (hshort _ (by
    rw [Bool.or_eq_true] at hcodex ⊢
    exact hcodex.imp_left fun h => by rw [h]; rfl))
  have hnumber : ∀ n : Int64, (Json.text S.format (.int n.toInt)).length ≤ 20 := by
    intro n
    have hrange : n.toInt.natAbs < 10 ^ 19 := by
      have hlow := n.le_toInt
      have hhigh := n.toInt_lt
      omega
    rw [Json.text]
    exact Json.length_decimal_le (by decide) hrange
  have hversion := hnumber v.version
  have hrevision := hnumber v.revision
  show (Json.text S.format (.obj [("version", .int v.version.toInt),
    ("revision", .int v.revision.toInt), ("claude", providerCodec.write v.claude),
    ("codex", providerCodec.write v.codex)])).length ≤ 4096
  rw [Json.length_text_obj_cons, Json.length_textMoreFields_cons, Json.length_textMoreFields_cons,
    Json.length_textMoreFields_cons, Json.length_textMoreFields_nil,
    show (Json.quote "version").length = 9 by decide,
    show (Json.quote "revision").length = 10 by decide,
    show (Json.quote "claude").length = 8 by decide,
    show (Json.quote "codex").length = 7 by decide]
  omega

/-- **Every file decodes to the value that was written.** -/
theorem decode_encode (hserde : ReadsFiles S) (h : v.valid = true) :
    decode S (encode S v) = .ok v := by
  have hfind : (encode S v).find? (!isAsciiWhitespace ·) = some 123 := by
    show ((Json.text S.format (.obj _))).find? _ = _
    rw [Json.text]
    rfl
  have hread : (S.fromSlice (encode S v)).bind preferencesCodec.read = some v := by
    rw [encode, (hserde v h).fromSlice]
    exact preferences_reads v
  unfold decode
  rw [if_neg (by
    rw [hfind]
    exact not_or.mpr ⟨Nat.not_lt.mpr (length_encode h), fun hne => hne rfl⟩), hread]
  dsimp only
  rw [h]
  rfl

end

/-! ### The cache

An entry is put into the cache after its file was read or written, and is dropped when a write
fails. -/

/-- What the file of a key holds; nothing if it cannot be decoded. -/
def State.onDisk (S : Serde) (s : State) (key : Key) : Option Preferences :=
  match s.files (filename key) with
  | none => some .initial
  | some raw => (decode S raw).toOption

/-- Every file was written by the store, and the cache agrees with the files. -/
structure State.Inv (S : Serde) (s : State) : Prop where
  written : ∀ name raw, s.files name = some raw → ∃ v, v.valid = true ∧ raw = encode S v
  coherent : ∀ e ∈ s.cache, s.onDisk S e.1 = some e.2

section

variable {S : Serde} {s : State} {k : Key} {v : Preferences}

/-- What is on disk depends on the file alone. -/
theorem State.onDisk_congr {s' : State} (h : s'.files (filename k) = s.files (filename k)) :
    s'.onDisk S k = s.onDisk S k := by
  unfold State.onDisk
  rw [h]

/-- **Every account has a value**: its file decodes. -/
theorem State.Inv.onDisk_eq (hserde : ReadsFiles S) (h : s.Inv S) (k : Key) :
    ∃ v, s.onDisk S k = some v ∧ v.valid = true := by
  unfold State.onDisk
  cases hfile : s.files (filename k) with
  | none => exact ⟨_, rfl, by decide⟩
  | some raw =>
    obtain ⟨v, hv, rfl⟩ := h.written _ _ hfile
    refine ⟨v, ?_, hv⟩
    show (decode S (encode S v)).toOption = some v
    rw [decode_encode hserde hv]
    rfl

/-- A read that returns, returns the value. -/
theorem State.read_ok {readable : Bool} (h : s.read S k readable = .ok v) :
    s.onDisk S k = some v := by
  unfold State.read at h
  unfold State.onDisk
  split at h
  · cases h
  · cases hfile : s.files (filename k) with
    | none =>
      rw [hfile] at h
      cases h
      rfl
    | some raw =>
      rw [hfile] at h
      dsimp only at h
      split at h
      · cases h
      · cases hraw : decode S raw with
        | error e => rw [hraw] at h; cases h
        | ok value =>
          rw [hraw] at h
          cases h
          show (decode S raw).toOption = some v
          rw [hraw]
          rfl

/-- A read that the file system serves returns the value. -/
theorem State.read_readable (hserde : ReadsFiles S) (hinv : s.Inv S) (h : s.onDisk S k = some v) :
    s.read S k true = .ok v := by
  unfold State.onDisk at h
  unfold State.read
  cases hfile : s.files (filename k) with
  | none =>
    rw [hfile] at h
    cases h
    rfl
  | some raw =>
    obtain ⟨w, hw, rfl⟩ := hinv.written _ _ hfile
    rw [hfile] at h
    dsimp only at h ⊢
    rw [decode_encode hserde hw] at h ⊢
    rw [if_neg (Nat.not_lt.mpr (length_encode hw))]
    cases h
    rfl

/-- What is cached for a key is one of the cached entries. -/
theorem State.cached_mem (h : s.cached k = some v) : (k, v) ∈ s.cache := by
  unfold State.cached at h
  obtain ⟨e, he, rfl⟩ := Option.map_eq_some_iff.mp h
  have hkey : e.1 = k := by simpa using List.find?_some he
  rw [← hkey]
  exact List.mem_of_find?_eq_some he

/-- What stays in the cache is for another key. -/
theorem State.mem_forget {e : Key × Preferences} (h : e ∈ (s.forget k).cache) :
    e ∈ s.cache ∧ e.1 ≠ k := by
  rw [State.forget, List.mem_filter, decide_eq_true_eq] at h
  exact h

/-- What is in the cache is the new entry or one for another key. -/
theorem State.mem_remember {e : Key × Preferences} (h : e ∈ (s.remember k v).cache) :
    e = (k, v) ∨ (e ∈ s.cache ∧ e.1 ≠ k) := by
  unfold State.remember at h
  rcases List.mem_append.mp h with h | h
  · refine .inr (State.mem_forget ?_)
    show e ∈ s.cache.filter fun e => e.1 ≠ k
    split at h
    · exact List.mem_of_mem_tail h
    · exact h
  · exact .inl (List.mem_singleton.mp h)

@[simp] theorem State.files_remember : (s.remember k v).files = s.files := rfl

@[simp] theorem State.files_forget : (s.forget k).files = s.files := rfl

/-- The value may be remembered. -/
theorem State.Inv.remember (h : s.Inv S) (hv : s.onDisk S k = some v) : (s.remember k v).Inv S := by
  refine ⟨h.written, fun e he => ?_⟩
  rcases State.mem_remember he with rfl | ⟨he, -⟩
  · exact hv
  · exact h.coherent e he

/-! ### Transactions

What a transaction reads is the value on disk, from the cache or from the file. -/

/-- What `State::get` does: it leaves the files alone and returns the value if anything. -/
theorem State.get_spec (h : s.Inv S) (k : Key) (readable : Bool) :
    (s.get S k readable).2.files = s.files ∧ (s.get S k readable).2.Inv S ∧
      ∀ v, (s.get S k readable).1 = .ok v → s.onDisk S k = some v := by
  unfold State.get
  cases hcached : s.cached k with
  | some value =>
    refine ⟨rfl, h, fun v hv => ?_⟩
    cases hv
    exact h.coherent (k, _) (State.cached_mem hcached)
  | none =>
    dsimp only
    cases hread : s.read S k readable with
    | error e => exact ⟨rfl, h, fun v hv => nomatch hv⟩
    | ok value =>
      refine ⟨rfl, h.remember (State.read_ok hread), fun v hv => ?_⟩
      cases hv
      exact State.read_ok hread

/-- A get that the file system serves returns the value. -/
theorem State.get_readable (hserde : ReadsFiles S) (hinv : s.Inv S) (h : s.onDisk S k = some v) :
    (s.get S k true).1 = .ok v := by
  unfold State.get
  cases hcached : s.cached k with
  | some value =>
    have hvalue := hinv.coherent (k, value) (State.cached_mem hcached)
    rw [h] at hvalue
    rw [Option.some.inj hvalue]
  | none =>
    dsimp only
    rw [State.read_readable hserde hinv h]

/-- The file of a key with new content. -/
def State.Replaced (S : Serde) (s s' : State) (k : Key) (v : Preferences) : Prop :=
  s'.files = fun name => if name = filename k then some (encode S v) else s.files name

/-- A file that was replaced has the new preferences. -/
theorem State.Replaced.onDisk {s' : State} (hserde : ReadsFiles S) (hv : v.valid = true)
    (h : State.Replaced S s s' k v) : s'.onDisk S k = some v := by
  unfold State.onDisk
  rw [h]
  dsimp only
  rw [if_pos rfl]
  dsimp only
  rw [decode_encode hserde hv]
  rfl

/-- The other files do not change. -/
theorem State.Replaced.onDisk_ne {s' : State} {k' : Key} (h : State.Replaced S s s' k v)
    (hne : k' ≠ k) : s'.onDisk S k' = s.onDisk S k' := by
  refine State.onDisk_congr ?_
  rw [h]
  exact if_neg fun hname => hne (filename_inj hname)

/-- A replaced file keeps the invariant when the cache has nothing else for it. -/
theorem State.Replaced.inv {s' : State} (hserde : ReadsFiles S) (hinv : s.Inv S)
    (hv : v.valid = true) (h : State.Replaced S s s' k v)
    (hcache : ∀ e ∈ s'.cache, e = (k, v) ∨ (e ∈ s.cache ∧ e.1 ≠ k)) : s'.Inv S := by
  constructor
  · intro name raw hraw
    rw [h] at hraw
    dsimp only at hraw
    split at hraw
    · exact ⟨v, hv, (Option.some.inj hraw).symm⟩
    · exact hinv.written _ _ hraw
  · intro e he
    rcases hcache e he with rfl | ⟨he, hne⟩
    · exact h.onDisk hserde hv
    · rw [h.onDisk_ne hne]
      exact hinv.coherent e he

/-- **What a write does**, whether it fails before or after the rename. -/
theorem State.commit_cases (hserde : ReadsFiles S) (hinv : s.Inv S) (hv : v.valid = true)
    (outcome : WriteOutcome) :
    (s.commit S k v outcome).state.Inv S ∧
      (((s.commit S k v outcome).committed = none ∧ (s.commit S k v outcome).state.files = s.files ∧
          ∃ e, (s.commit S k v outcome).result = .error e) ∨
        ((s.commit S k v outcome).committed = some v ∧
          State.Replaced S s (s.commit S k v outcome).state k v ∧
          ((s.commit S k v outcome).result = .ok v ∨
            (s.commit S k v outcome).result = .error .unavailable))) := by
  cases outcome with
  | done =>
    have hreplaced : State.Replaced S s (s.commit S k v .done).state k v := rfl
    exact ⟨hreplaced.inv hserde hinv hv fun e he => State.mem_remember he,
      .inr ⟨rfl, hreplaced, .inl rfl⟩⟩
  | beforeCommit =>
    have hfiles : (s.commit S k v .beforeCommit).state.files = s.files := by
      funext name
      show (if name = filename k then s.files (filename k) else s.files name) = s.files name
      split
      · rename_i h
        rw [h]
      · rfl
    refine ⟨⟨fun name raw h => hinv.written name raw (hfiles ▸ h), fun e he => ?_⟩,
      .inl ⟨rfl, hfiles, _, rfl⟩⟩
    rw [State.onDisk_congr (congrFun hfiles _)]
    exact hinv.coherent e (State.mem_forget he).1
  | afterCommit =>
    have hreplaced : State.Replaced S s (s.commit S k v .afterCommit).state k v := rfl
    exact ⟨hreplaced.inv hserde hinv hv fun e he => .inr (State.mem_forget he),
      .inr ⟨rfl, hreplaced, .inr rfl⟩⟩

/-- **What `State::set` can do.**  It leaves the files alone and does not succeed, or it replaces
    the file of its account by the next revision of the value on disk. -/
theorem State.set_cases (hserde : ReadsFiles S) (hinv : s.Inv S) (next : Preferences) (env : Env) :
    (s.set S k next env).state.Inv S ∧
      (((s.set S k next env).committed = none ∧ (s.set S k next env).state.files = s.files ∧
          ∃ e, (s.set S k next env).result = .error e) ∨
        ∃ old v, s.onDisk S k = some old ∧ old.revision = next.revision ∧
          v = { next with revision := next.revision + 1 } ∧ next.valid = true ∧ v.valid = true ∧
          (s.set S k next env).committed = some v ∧
          State.Replaced S s (s.set S k next env).state k v ∧
          ((s.set S k next env).result = .ok v ∨
            (s.set S k next env).result = .error .unavailable)) := by
  unfold State.set
  -- before the commit every failure leaves the files
  split
  · exact ⟨hinv, .inl ⟨rfl, rfl, _, rfl⟩⟩
  split
  · exact ⟨hinv, .inl ⟨rfl, rfl, _, rfl⟩⟩
  rename_i hnext
  obtain ⟨hfiles, hgot, hold⟩ := State.get_spec hinv k env.readable
  cases hget : s.get S k env.readable with
  | mk result s₁ =>
    rw [hget] at hfiles hgot hold
    dsimp only at hfiles hgot hold
    cases result with
    | error e => exact ⟨hgot, .inl ⟨rfl, hfiles, _, rfl⟩⟩
    | ok old =>
      dsimp only
      cases hread : s₁.read S k env.readableAgain with
      | error e => exact ⟨hgot, .inl ⟨rfl, hfiles, _, rfl⟩⟩
      | ok current =>
        dsimp only
        -- the revision is compared with what the file has now
        have hcurrent := State.read_ok hread
        split
        · exact ⟨hgot.remember hcurrent, .inl ⟨rfl, hfiles, _, rfl⟩⟩
        rename_i hsame
        simp only [ne_eq, not_or, not_not] at hsame
        split
        · exact ⟨hgot, .inl ⟨rfl, hfiles, _, rfl⟩⟩
        rename_i hvalid
        split
        · exact ⟨hgot, .inl ⟨rfl, hfiles, _, rfl⟩⟩
        -- what is committed is the request with the next revision
        rw [Bool.not_eq_true, Bool.not_eq_false'] at hvalid
        have hdisk : s.onDisk S k = some old := hold old rfl
        have hcases := State.commit_cases hserde hgot hvalid env.outcome (k := k)
        refine ⟨hcases.1, hcases.2.imp (fun h => ⟨h.1, h.2.1.trans hfiles, h.2.2⟩) ?_⟩
        rintro ⟨hcommitted, hreplaced, hresult⟩
        refine ⟨old, _, hdisk, hsame.1 ▸ hsame.2, rfl, ?_, hvalid, hcommitted, ?_, hresult⟩
        · simpa using hnext
        · unfold State.Replaced at hreplaced ⊢
          rw [hreplaced, hfiles]

end

/-! ### Steps of a store

What a step shows of the register: its answer and the file that it replaced. -/

section

variable {ι : Type} (S : Serde) (A : Accounts ι) (sha256 : List UInt8 → Key)

/-- The value of an account. -/
def Store.value (s : Store ι) (i : ι) : Option Preferences := s.state.onDisk S (key A sha256 i)

/-- The file of an account. -/
def Store.file (s : Store ι) (i : ι) : Option (List UInt8) :=
  s.state.files (filename (key A sha256 i))

/-- The account a step works for. -/
def Action.account (s : Store ι) : Action ι → Option ι
  | .get i _ _ => some i
  | .set i _ _ => some i
  | .work index _ => s.jobs[index]?.map Job.account
  | .shutdown | .restart => none

/-- The transaction a caller asks for. -/
def Action.asked : Action ι → Option (Job ι)
  | .get i _ _ => some (.get i)
  | .set i next _ => some (.set i next)
  | .work _ _ | .shutdown | .restart => none

/-- The transaction that gets the lock. -/
def Action.performed (s : Store ι) : Action ι → Option (Job ι)
  | .work index _ => s.jobs[index]?
  | .get _ _ _ | .set _ _ _ | .shutdown | .restart => none

/-- What a step does to the values and tells its caller.  A committed write is that of the
    transaction that has the lock: it stores the settings that were submitted, as the next revision
    of the value it replaces, for the account of the step; no other file changes.  A set that
    succeeds committed what it returns; one that is refused committed nothing, unless the store
    was unavailable.  A get returns the value.  Transactions are admitted as they were asked for. -/
structure StepSpec (s : Store ι) (action : Action ι) (out : Output ι) (s' : Store ι) : Prop where
  inv : s'.state.Inv S
  own : ∀ c, out.commit = some c → action.account s = some c.account
  performed : ∀ c, out.commit = some c → action.performed s = some (.set c.account c.request)
  admitted : ∀ job ∈ s'.jobs, job ∈ s.jobs ∨ action.asked = some job
  committed : ∀ c, out.commit = some c →
    c.value = { c.request with revision := c.request.revision + 1 } ∧
    (∃ old, s.value S A sha256 c.account = some old ∧ c.request.revision = old.revision ∧
      c.value.revision.toInt = old.revision.toInt + 1) ∧
    s'.file A sha256 c.account = some (encode S c.value) ∧
    decode S (encode S c.value) = .ok c.value ∧ s'.value S A sha256 c.account = some c.value
  unchanged : ∀ name, s'.state.files name ≠ s.state.files name →
    ∃ c, out.commit = some c ∧ name = filename (key A sha256 c.account)
  setOk : ∀ i next v, out.reply = some (.set i next (.ok v)) → out.commit = some ⟨i, next, v⟩
  setRefused : ∀ i next e, out.reply = some (.set i next (.error e)) → e ≠ .unavailable →
    out.commit = none
  getOk : ∀ i v, out.reply = some (.get i (.ok v)) →
    s.value S A sha256 i = some v ∧ s'.value S A sha256 i = some v

variable {S A sha256} {s s' : Store ι} {action : Action ι} {out : Output ι}

/-- A step that touches neither the files nor the cache and answers with an error, or not. -/
theorem StepSpec.of_state_eq (hinv : s.state.Inv S) (hstate : s'.state = s.state)
    (hcommit : out.commit = none)
    (hjobs : ∀ job ∈ s'.jobs, job ∈ s.jobs ∨ action.asked = some job)
    (hset : ∀ i next v, out.reply ≠ some (.set i next (.ok v)))
    (hget : ∀ i v, out.reply = some (.get i (.ok v)) → s.value S A sha256 i = some v) :
    StepSpec S A sha256 s action out s' where
  inv := hstate ▸ hinv
  own c hc := by rw [hcommit] at hc; cases hc
  performed c hc := by rw [hcommit] at hc; cases hc
  admitted := hjobs
  committed c hc := by rw [hcommit] at hc; cases hc
  unchanged name h := absurd (congrFun (congrArg State.files hstate) name) h
  setOk i next v h := absurd h (hset i next v)
  setRefused _ _ _ _ _ := hcommit
  getOk i v h := by
    have hvalue := hget i v h
    refine ⟨hvalue, ?_⟩
    unfold Store.value at hvalue ⊢
    rw [hstate]
    exact hvalue

/-- **A transaction** does one step of the register, or none. -/
theorem transact_spec (hinv : s.state.Inv S) (job : Job ι) (hasked : action.asked = some job)
    (admission : Admission) :
    StepSpec S A sha256 s action (s.transact job admission).2 (s.transact job admission).1 := by
  have hreply :
    ∀ e : Error, (∀ i next v, some (job.reply (.error e)) ≠ some (.set i next (.ok v))) ∧
      ∀ i v, some (job.reply (.error e)) ≠ some (.get i (.ok v)) := by
    intro e
    cases job with
    | get i => exact ⟨nofun, nofun⟩
    | set i next => exact ⟨nofun, nofun⟩
  unfold Store.transact
  split
  · exact .of_state_eq hinv rfl rfl (fun _ => .inl) (hreply _).1
      fun i v h => absurd h ((hreply _).2 i v)
  · split
    · exact .of_state_eq hinv rfl rfl (fun _ => .inl) (hreply _).1
        fun i v h => absurd h ((hreply _).2 i v)
    · refine .of_state_eq hinv rfl rfl (fun j hj => ?_) nofun nofun
      rcases List.mem_append.mp hj with hold | hnew
      · exact .inl hold
      · rw [List.mem_singleton.mp hnew]
        exact .inr hasked

/-- **`get`** does one step of the register, or none. -/
theorem get_spec (hinv : s.state.Inv S) (i : ι) (hasked : action.asked = some (.get i))
    (lock : Bool) (admission : Admission) :
    StepSpec S A sha256 s action (s.get A sha256 i lock admission).2
      (s.get A sha256 i lock admission).1 := by
  cases hclosed : s.closed with
  | true =>
    have hget : s.get A sha256 i lock admission
        = (s, ⟨some (.get i (.error .unavailable)), none⟩) := by
      unfold Store.get
      rw [if_pos hclosed]
    rw [hget]
    exact .of_state_eq hinv rfl rfl (fun _ => .inl) nofun nofun
  | false =>
    cases hcached : (if lock then s.state.cached (key A sha256 i) else none) with
    | none =>
      have hget : s.get A sha256 i lock admission = s.transact (.get i) admission := by
        unfold Store.get
        rw [if_neg (by rw [hclosed]; exact Bool.false_ne_true), hcached]
      rw [hget]
      exact transact_spec hinv _ hasked _
    | some value =>
      have hget : s.get A sha256 i lock admission = (s, ⟨some (.get i (.ok value)), none⟩) := by
        unfold Store.get
        rw [if_neg (by rw [hclosed]; exact Bool.false_ne_true), hcached]
      rw [hget]
      refine .of_state_eq hinv rfl rfl (fun _ => .inl) nofun fun j v h => ?_
      cases h
      split at hcached
      · exact hinv.coherent (key A sha256 i, value) (State.cached_mem hcached)
      · cases hcached

/-- **`set`** does one step of the register, or none. -/
theorem set_spec (hinv : s.state.Inv S) (i : ι) (next : Preferences)
    (hasked : action.asked = some (.set i next)) (admission : Admission) :
    StepSpec S A sha256 s action (s.set i next admission).2 (s.set i next admission).1 := by
  unfold Store.set
  split
  · exact .of_state_eq hinv rfl rfl (fun _ => .inl) nofun nofun
  · exact transact_spec hinv _ hasked _

/-- The next revision is one more. -/
theorem toInt_revision_succ {v : Preferences} (h : v.valid = true) :
    (v.revision + 1).toInt = v.revision.toInt + 1 := by
  unfold Preferences.valid at h
  simp only [Bool.and_eq_true, decide_eq_true_eq] at h
  obtain ⟨⟨⟨-, hlow, hhigh⟩, -⟩, -⟩ := h
  have hlow := Int64.le_iff_toInt_le.mp hlow
  have hhigh := Int64.lt_iff_toInt_lt.mp hhigh
  rw [show (0 : Int64).toInt = 0 from rfl] at hlow
  rw [show maxRevision.toInt = 9007199254740992 from rfl] at hhigh
  rw [Int64.toInt_add, show (1 : Int64).toInt = 1 from rfl,
    Int.bmod_eq_of_le (by omega) (by omega)]

/-- A transaction with the lock. -/
theorem perform_spec (hserde : ReadsFiles S) (hinv : s.state.Inv S) (job : Job ι) (env : Env)
    {s₀ : Store ι} (hstate : s.state = s₀.state) (haccount : action.account s₀ = some job.account)
    (hperformed : action.performed s₀ = some job) (hjobs : s.jobs ⊆ s₀.jobs) :
    StepSpec S A sha256 s₀ action (s.perform S A sha256 job env).2
      (s.perform S A sha256 job env).1 := by
  cases job with
  -- a `get` changes nothing
  | get i =>
    obtain ⟨hfiles, hgot, hvalue⟩ := State.get_spec hinv (key A sha256 i) env.readable
    refine ⟨hgot, nofun, nofun, fun j hj => .inl (hjobs hj), nofun, fun name h => ?_, nofun,
      fun _ _ _ _ _ => rfl, fun j v h => ?_⟩
    · rw [hstate] at hfiles
      exact absurd (congrFun hfiles name) (hstate ▸ h)
    · have hv : s.state.onDisk S (key A sha256 j) = some v := by
        have hparts := Reply.get.inj (Option.some.inj h)
        rw [← hparts.1]
        exact hvalue v hparts.2
      refine ⟨by rw [← hv, hstate]; rfl, ?_⟩
      show (s.state.get S (key A sha256 i) env.readable).2.onDisk S (key A sha256 j) = some v
      rw [State.onDisk_congr (congrFun hfiles _)]
      exact hv
  | set i next =>
    obtain ⟨hset, hcases⟩ := State.set_cases hserde hinv next env (k := key A sha256 i)
    rcases hcases with ⟨hnone, hfiles, e, he⟩ |
      ⟨old, v, hold, hrev, hv, hnext, hvalid, hsome, hreplaced, hresult⟩
    -- the set fails before its commit
    · have hcommit : (s.perform S A sha256 (.set i next) env).2.commit = none := by
        show Option.map _ (s.state.set S (key A sha256 i) next env).committed = none
        rw [hnone]
        rfl
      refine ⟨hset, fun c hc => ?_, fun c hc => ?_, fun j hj => .inl (hjobs hj), fun c hc => ?_,
        fun name h => ?_, fun j n v h => ?_, fun _ _ _ _ _ => hcommit, nofun⟩
      · rw [hcommit] at hc; cases hc
      · rw [hcommit] at hc; cases hc
      · rw [hcommit] at hc; cases hc
      · rw [hstate] at hfiles
        exact absurd (congrFun hfiles name) (hstate ▸ h)
      · have hok := (Reply.set.inj (Option.some.inj h)).2.2
        rw [he] at hok
        cases hok
    -- the set commits, whatever it replies
    · have hcommit : (s.perform S A sha256 (.set i next) env).2.commit = some ⟨i, next, v⟩ := by
        show Option.map _ (s.state.set S (key A sha256 i) next env).committed = _
        rw [hsome]
        rfl
      have hsucc : v.revision.toInt = old.revision.toInt + 1 := by
        rw [hv, hrev]
        exact toInt_revision_succ hnext
      refine ⟨hset, fun c hc => ?_, fun c hc => ?_, fun j hj => .inl (hjobs hj), fun c hc => ?_,
        fun name h => ⟨_, hcommit, ?_⟩, fun j n w h => ?_, fun j n e h hne => ?_, nofun⟩
      · rw [hcommit] at hc
        cases hc
        exact haccount
      · rw [hcommit] at hc
        cases hc
        exact hperformed
      · rw [hcommit] at hc
        cases hc
        refine ⟨hv, ⟨old, by rw [← hold, hstate]; rfl, hrev.symm, hsucc⟩, ?_,
          decode_encode hserde hvalid, hreplaced.onDisk hserde hvalid⟩
        show (s.state.set S (key A sha256 i) next env).state.files (filename (key A sha256 i)) = _
        rw [hreplaced]
        exact if_pos rfl
      -- only the file of this account changes
      · by_contra hne
        refine h ?_
        show (s.state.set S (key A sha256 i) next env).state.files name = _
        rw [hreplaced, ← hstate]
        exact if_neg hne
      -- a reply with a value is the one that was committed
      · obtain ⟨rfl, rfl, hok⟩ := Reply.set.inj (Option.some.inj h)
        rw [hcommit]
        rcases hresult with hresult | hresult
        · rw [hresult] at hok
          cases hok
          rfl
        · rw [hresult] at hok
          cases hok
      -- a reply with an error says that the storage is unavailable
      · have herror := (Reply.set.inj (Option.some.inj h)).2.2
        rcases hresult with hresult | hresult
        · rw [hresult] at herror
          cases herror
        · rw [hresult] at herror
          cases herror
          exact absurd rfl hne

/-- **Every step of a store.** -/
theorem step_spec (hserde : ReadsFiles S) (hinv : s.state.Inv S) (action : Action ι) :
    StepSpec S A sha256 s action (s.step S A sha256 action).2 (s.step S A sha256 action).1 := by
  cases action with
  | get i lock admission => exact get_spec hinv i rfl lock admission
  | set i next admission => exact set_spec hinv i next rfl admission
  | work index env =>
    unfold Store.step
    dsimp only
    cases hjob : s.jobs[index]? with
    | none => exact .of_state_eq hinv rfl rfl (fun _ => .inl) nofun nofun
    | some job =>
      refine perform_spec (s := { s with jobs := s.jobs.eraseIdx index }) hserde hinv job env rfl ?_
        hjob (List.eraseIdx_subset)
      show s.jobs[index]?.map Job.account = some job.account
      rw [hjob]
      rfl
  | shutdown => exact .of_state_eq hinv rfl rfl (fun _ => .inl) nofun nofun
  | restart =>
    -- Only the files are left, and they are as they were.
    exact ⟨⟨hinv.written, nofun⟩, nofun, nofun, nofun, nofun, fun name h => absurd rfl h, nofun,
      nofun, nofun⟩

/-- **Accounts do not disturb each other**: a step for one account leaves the file of another as
    it is, and a get that the file system serves gets the same answer. -/
theorem StepSpec.isolated (hserde : ReadsFiles S) (hsha : CollisionFree A sha256)
    (hinv : s.state.Inv S) (h : StepSpec S A sha256 s action out s') {i : ι}
    (hne : action.account s ≠ some i) :
    s'.file A sha256 i = s.file A sha256 i ∧
      (s'.state.get S (key A sha256 i) true).1 = (s.state.get S (key A sha256 i) true).1 := by
  have hfile : s'.file A sha256 i = s.file A sha256 i := by
    by_contra hchanged
    obtain ⟨c, hc, hname⟩ := h.unchanged _ hchanged
    have hi : i = c.account := key_inj hsha (filename_inj hname)
    exact hne (hi ▸ h.own c hc)
  refine ⟨hfile, ?_⟩
  obtain ⟨v, hv, -⟩ := hinv.onDisk_eq hserde (key A sha256 i)
  have hv' : s'.state.onDisk S (key A sha256 i) = some v := by
    rw [State.onDisk_congr hfile]
    exact hv
  rw [State.get_readable hserde h.inv hv', State.get_readable hserde hinv hv]

end

/-! ### Runs

By induction on the steps, with the revisions of each account counted from zero. -/

section

variable {ι : Type} [DecidableEq ι]

/-- The revisions that the committed writes of an account carried, in their order. -/
def carried (i : ι) (outs : List (Output ι)) : List ℤ :=
  outs.filterMap fun out =>
    out.commit.bind fun c => if c.account = i then some c.request.revision.toInt else none

/-- The committed writes of an account. -/
def commits (i : ι) (outs : List (Output ι)) : List (Commit ι) :=
  outs.filterMap fun out => out.commit.filter fun c => c.account = i

variable {S : Serde} {A : Accounts ι} {sha256 : List UInt8 → Key} {s s' : Store ι}

/-- A step commits nothing for an account, or the write that carried the revision on disk. -/
theorem StepSpec.revision (hsha : CollisionFree A sha256) {action : Action ι} {out : Output ι}
    (h : StepSpec S A sha256 s action out s') {i : ι} {v : Preferences}
    (hv : s.value S A sha256 i = some v) :
    (carried i [out] = [] ∧ commits i [out] = [] ∧ s'.value S A sha256 i = some v) ∨
      ∃ c, carried i [out] = [v.revision.toInt] ∧ commits i [out] = [c] ∧
        s'.value S A sha256 i = some c.value ∧
        c.value.revision.toInt = v.revision.toInt + 1 := by
  by_cases hown : ∃ c, out.commit = some c ∧ c.account = i
  · obtain ⟨c, hc, rfl⟩ := hown
    obtain ⟨-, ⟨old, hold, hcarried, hnext⟩, -, -, hvalue⟩ := h.committed c hc
    have hvalues : v = old := Option.some.inj (hv.symm.trans hold)
    refine .inr ⟨c, ?_, ?_, hvalue, hvalues ▸ hnext⟩
    · simp [carried, hc, hcarried, hvalues]
    · simp [commits, hc, Option.filter]
  · have hnone : carried i [out] = [] ∧ commits i [out] = [] := by
      cases hc : out.commit with
      | none => simp [carried, commits, hc]
      | some c =>
        have hne : c.account ≠ i := fun hi => hown ⟨c, hc, hi⟩
        simp [carried, commits, hc, hne, Option.filter]
    refine .inl ⟨hnone.1, hnone.2, ?_⟩
    have hfile : s'.file A sha256 i = s.file A sha256 i := by
      by_contra hchanged
      obtain ⟨c, hc, hname⟩ := h.unchanged _ hchanged
      exact hown ⟨c, hc, (key_inj hsha (filename_inj hname)).symm⟩
    unfold Store.value at hv ⊢
    rw [State.onDisk_congr hfile]
    exact hv

/-- A run keeps the invariant and counts the revisions up from where they were. -/
theorem run_spec (hserde : ReadsFiles S) (hsha : CollisionFree A sha256) (hinv : s.state.Inv S)
    (actions : List (Action ι)) :
    (s.run S A sha256 actions).1.state.Inv S ∧
      ∀ i v (n : ℕ), s.value S A sha256 i = some v → v.revision.toInt = n →
        ∃ v' m, (s.run S A sha256 actions).1.value S A sha256 i = some v' ∧
          v'.revision.toInt = (n + m : ℕ) ∧
          v' = ((commits i (s.run S A sha256 actions).2).getLast?.map Commit.value).getD v ∧
          (m = 0 → v' = v) ∧
          carried i (s.run S A sha256 actions).2 = (List.range' n m).map Int.ofNat := by
  induction actions generalizing s with
  | nil => exact ⟨hinv, fun i v n hv hn => ⟨v, 0, hv, hn, rfl, fun _ => rfl, rfl⟩⟩
  | cons action actions ih =>
    have hstep : StepSpec S A sha256 s action (s.step S A sha256 action).2
        (s.step S A sha256 action).1 := step_spec hserde hinv action
    obtain ⟨hinv', hrun⟩ := ih hstep.inv
    refine ⟨hinv', fun i v n hv hn => ?_⟩
    have hsplit : carried i (s.run S A sha256 (action :: actions)).2
        = carried i [(s.step S A sha256 action).2]
          ++ carried i ((s.step S A sha256 action).1.run S A sha256 actions).2 :=
      List.filterMap_append (l := [(s.step S A sha256 action).2])
    have hcommits : commits i (s.run S A sha256 (action :: actions)).2
        = commits i [(s.step S A sha256 action).2]
          ++ commits i ((s.step S A sha256 action).1.run S A sha256 actions).2 :=
      List.filterMap_append (l := [(s.step S A sha256 action).2])
    rcases hstep.revision hsha hv with ⟨hnone, hno, hv'⟩ | ⟨c, hone, hlast, hv', hnext⟩
    · obtain ⟨v', m, hvalue, hrev, hwritten, hsame, hcarried⟩ := hrun i v n hv' hn
      refine ⟨v', m, hvalue, hrev, ?_, hsame, ?_⟩
      · rw [hcommits, hno, List.nil_append]
        exact hwritten
      · rw [hsplit, hnone, List.nil_append, hcarried]
    · obtain ⟨v', m, hvalue, hrev, hwritten, -, hcarried⟩ := hrun i c.value (n + 1) hv' (by omega)
      refine ⟨v', m + 1, hvalue, by omega, ?_, nofun, ?_⟩
      · rw [hcommits, hlast, List.singleton_append, List.getLast?_cons, hwritten]
        cases (commits i ((s.step S A sha256 action).1.run S A sha256 actions).2).getLast? <;> rfl
      · rw [hsplit, hone, hcarried, hn, List.range'_succ]
        rfl

/-- Every committed write of a run stores what was submitted. -/
theorem run_submitted (hserde : ReadsFiles S) (hinv : s.state.Inv S) (actions : List (Action ι))
    {i : ι} {c : Commit ι} (hc : c ∈ commits i (s.run S A sha256 actions).2) :
    c.value = { c.request with revision := c.request.revision + 1 } ∧
      (.set i c.request ∈ s.jobs ∨ ∃ admission, .set i c.request admission ∈ actions) := by
  induction actions generalizing s with
  | nil => cases hc
  | cons action actions ih =>
    have hstep : StepSpec S A sha256 s action (s.step S A sha256 action).2
        (s.step S A sha256 action).1 := step_spec hserde hinv action
    have hcommits : commits i (s.run S A sha256 (action :: actions)).2
        = commits i [(s.step S A sha256 action).2]
          ++ commits i ((s.step S A sha256 action).1.run S A sha256 actions).2 :=
      List.filterMap_append (l := [(s.step S A sha256 action).2])
    rw [hcommits] at hc
    rcases List.mem_append.mp hc with hnow | hlater
    · -- the transaction that has the lock was admitted before
      obtain ⟨out, hout, hfilter⟩ := List.mem_filterMap.mp hnow
      rw [List.mem_singleton.mp hout] at hfilter
      obtain ⟨hcommit, haccount⟩ := Option.filter_eq_some_iff.mp hfilter
      have hjob := hstep.performed c hcommit
      rw [of_decide_eq_true haccount] at hjob
      refine ⟨(hstep.committed c hcommit).1, .inl ?_⟩
      cases action with
      | work index env => exact List.mem_of_getElem? hjob
      | get _ _ _ => cases hjob
      | set _ _ _ => cases hjob
      | shutdown => cases hjob
      | restart => cases hjob
    · obtain ⟨hvalue, hjob⟩ := ih hstep.inv hlater
      refine ⟨hvalue, ?_⟩
      rcases hjob with hjob | ⟨admission, hset⟩
      -- the job waits since this action, so that the action is the `set` that submitted it
      · rcases hstep.admitted _ hjob with hold | hasked
        · exact .inl hold
        · right
          cases action with
          | set j next admission =>
            cases hasked
            exact ⟨admission, List.mem_cons_self⟩
          | get _ _ _ => cases hasked
          | work _ _ => cases hasked
          | shutdown => cases hasked
          | restart => cases hasked
      · exact .inr ⟨admission, List.mem_cons_of_mem _ hset⟩

/-- **The preferences of every account are a compare-and-swap register.**  After any run of a
    store from an empty directory every account has a value, the one its file decodes to, and the
    committed writes of the account carried the revisions 0, 1, 2, … up to the one before it:
    each committed write added one, and no two carried the same.  Every committed write stored the
    settings of a set of the account under the next revision, and the value is that of the last
    one.  Every further step does what `StepSpec` says, and leaves the other accounts alone. -/
theorem register_of_run (S : Serde) (A : Accounts ι) (sha256 : List UInt8 → Key)
    (hserde : ReadsFiles S) (hsha : CollisionFree A sha256) (actions : List (Action ι)) :
    (∀ i, ∃ v n, ((Store.empty ι).run S A sha256 actions).1.value S A sha256 i = some v ∧
      v.valid = true ∧ v.revision.toInt = (n : ℕ) ∧
      carried i ((Store.empty ι).run S A sha256 actions).2 = (List.range n).map Int.ofNat ∧
      (carried i ((Store.empty ι).run S A sha256 actions).2).Nodup ∧
      (n = 0 → v = .initial) ∧
      v = ((commits i ((Store.empty ι).run S A sha256 actions).2).getLast?.map
        Commit.value).getD .initial ∧
      ∀ c ∈ commits i ((Store.empty ι).run S A sha256 actions).2,
        c.value = { c.request with revision := c.request.revision + 1 } ∧
          ∃ admission, Action.set i c.request admission ∈ actions) ∧
    ∀ s action, s = ((Store.empty ι).run S A sha256 actions).1 →
      StepSpec S A sha256 s action (s.step S A sha256 action).2 (s.step S A sha256 action).1 ∧
      ∀ i, action.account s ≠ some i →
        (s.step S A sha256 action).1.file A sha256 i = s.file A sha256 i ∧
        ((s.step S A sha256 action).1.state.get S (key A sha256 i) true).1
          = (s.state.get S (key A sha256 i) true).1 := by
  have hempty : (Store.empty ι).state.Inv S := ⟨nofun, nofun⟩
  obtain ⟨hinv, hrun⟩ : ((Store.empty ι).run S A sha256 actions).1.state.Inv S ∧ _ :=
    run_spec hserde hsha hempty actions
  refine ⟨fun i => ?_, fun s action hs => ?_⟩
  · obtain ⟨v, m, hvalue, hrev, hwritten, hsame, hcarried⟩ := hrun i .initial 0 rfl rfl
    obtain ⟨w, hw, hvalid⟩ := hinv.onDisk_eq hserde (key A sha256 i)
    have hvw : v = w := Option.some.inj (hvalue.symm.trans hw)
    rw [Nat.zero_add] at hrev
    rw [← List.range_eq_range'] at hcarried
    refine ⟨v, m, hvalue, hvw ▸ hvalid, hrev, hcarried, ?_, hsame, hwritten, fun c hc => ?_⟩
    · rw [hcarried]
      exact List.nodup_range.map fun a b h => Int.ofNat.inj h
    · obtain ⟨hstored, hjob⟩ := run_submitted hserde hempty actions hc
      exact ⟨hstored, hjob.resolve_left List.not_mem_nil⟩
  · subst hs
    have hstep : StepSpec S A sha256 ((Store.empty ι).run S A sha256 actions).1 action _ _ :=
      step_spec hserde hinv action
    exact ⟨hstep, fun i hne => hstep.isolated hserde hsha hinv hne⟩

end

namespace RegisterExample

open Json.Compact

/-- Two accounts without profiles. -/
def accounts : Accounts Bool where
  username i := if i then "a" else "b"
  profile _ := ""
  noNul := by decide
  distinct := by decide

/-- The first bytes of a text. -/
def sha256 (raw : List UInt8) : Key := Vector.ofFn fun i => raw.getD i 0

/-- The accounts of the example have different keys. -/
theorem collisionFree : CollisionFree accounts sha256 := by
  unfold CollisionFree
  decide

/-- What its serializer writes it reads back. -/
theorem readsFiles : ReadsFiles serde := by
  intro v _
  refine serde_reads (plain_object ?_)
  have hprovider : ∀ p, plain (providerCodec.write p) = true := by
    intro p
    refine plain_object (plainPut_map.mpr (plainPut_and.mpr ⟨?_, ?_⟩))
    · exact plainPut_defaulted rfl
    · exact plainPut_defaulted rfl
  refine plainPut_map.mpr (plainPut_and.mpr ⟨plainPut_defaulted rfl, plainPut_and.mpr
    ⟨plainPut_defaulted rfl, plainPut_and.mpr ⟨?_, ?_⟩⟩⟩)
  · exact plainPut_defaulted (hprovider _)
  · exact plainPut_defaulted (hprovider _)

/-- Two edits of the first revision; the write of the first one fails after the rename. -/
def edits : List (Action Bool) :=
  [.set true ⟨1, 0, ⟨false, "cli"⟩, ⟨true, "cli"⟩⟩ ⟨true, false⟩,
   .set true ⟨1, 0, ⟨true, "cli"⟩, ⟨true, "cli"⟩⟩ ⟨true, false⟩,
   .work 0 ⟨true, true, true, true, .afterCommit⟩, .work 0 ⟨true, true, true, true, .done⟩]

/-- The first edit was committed although it failed, and the second one was refused. -/
theorem one_edit_committed :
    ((Store.empty Bool).run serde accounts sha256 edits).1.value serde accounts sha256 true
        = some ⟨1, 1, ⟨false, "cli"⟩, ⟨true, "cli"⟩⟩ ∧
      ((Store.empty Bool).run serde accounts sha256 edits).2.map (fun out => out.reply.isSome)
        = [false, false, true, true] := by
  obtain ⟨v, n, hvalue, -, -, -, -, -, hlast, -⟩ :=
    (register_of_run serde accounts sha256 readsFiles collisionFree edits).1 true
  have hone : (commits true ((Store.empty Bool).run serde accounts sha256 edits).2).map Commit.value
      = [⟨1, 1, ⟨false, "cli"⟩, ⟨true, "cli"⟩⟩] := by decide
  rw [← List.getLast?_map, hone] at hlast
  exact ⟨by rw [hvalue, hlast]; rfl, by decide⟩

end RegisterExample

end Hmux.UsagePreferences
