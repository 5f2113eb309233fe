import Hmux.Lib.Check
import Hmux.Lib.Json.Reader
import Hmux.Push.State

namespace Hmux.Push

open Lib

/-!
# What the push store keeps

* `Good` — the subscriptions of one state: in order, no endpoint twice, all of them valid;
* `decodeFile_text` — what `save` writes is what `open` reads;
* `save_effect`, `subscribe_effect`, `remove_effect` — what a transaction does;
* `World.Inv` — the store has what the file has, unless it has failed;
* `subscriptions_kept` — what follows for every run from nothing.

Every transaction that changes something writes the file first and takes over the new subscriptions
only afterwards, and a write that failed closes the store until it is opened again.  So an open
store that has not failed has what the file has, and that is what all the parts of the theorem are
read off.
-/

section

variable {S : Serde} {L : Libraries}

/-! ### Subscriptions

Of two subscriptions with the same endpoint the older one is dropped when the newer one is stored.
-/

/-- Subscriptions that may be stored. -/
structure Good (L : Libraries) (subs : Subscriptions) : Prop where
  sorted : OrderedMap.Sorted subs
  endpoints : (subs.map (·.2.endpoint)).Nodup
  ids : ∀ e ∈ subs, validId e.1 = true
  valid : ∀ e ∈ subs, validateSubscription L e.2 = true
  length : subs.length ≤ maxSubscriptions

/-- No subscriptions are good ones. -/
theorem good_nil (L : Libraries) : Good L [] where
  sorted := List.Pairwise.nil
  endpoints := List.nodup_nil
  ids _ h := nomatch h
  valid _ h := nomatch h
  length := Nat.zero_le _

/-- Fewer of them are good as well. -/
theorem Good.sublist {subs subs' : Subscriptions} (h : Good L subs) (hsub : subs'.Sublist subs) :
    Good L subs' where
  sorted := h.sorted.sublist hsub
  endpoints := h.endpoints.sublist (hsub.map _)
  ids e he := h.ids e (hsub.subset he)
  valid e he := h.valid e (hsub.subset he)
  length := le_trans hsub.length_le h.length

/-- Keys in order are distinct. -/
theorem sorted_nodup {subs : Subscriptions} (h : OrderedMap.Sorted subs) :
    (subs.map Prod.fst).Nodup := by
  unfold List.Nodup
  rw [List.pairwise_map]
  exact h.imp fun hlt heq => absurd heq hlt.ne

/-- A login has one subscription. -/
theorem Good.unique {subs : Subscriptions} (h : Good L subs) {id : String} {a b : Subscription}
    (ha : (id, a) ∈ subs) (hb : (id, b) ∈ subs) : a = b := by
  have heq := List.inj_on_of_nodup_map (sorted_nodup h.sorted) ha hb rfl
  exact (Prod.mk.inj heq).2

/-! ### The file

Keys and subscriptions, in the order of the logins. -/

/-- The keys of a subscription are read back. -/
theorem keys_reads (keys : Keys) : Keys.codec.Reads keys := by
  rw [Keys.codec, Codec.strictObject_reads (by decide)]
  apply Fields.map_reads rfl
  rw [Fields.and_reads, Fields.defaulted_reads, Fields.defaulted_reads]
  exact ⟨Codec.nullDefault_reads (fun h => nomatch h) (Codec.string_reads _),
    Codec.nullDefault_reads (fun h => nomatch h) (Codec.string_reads _)⟩

/-- A subscription is read back. -/
theorem subscription_reads (sub : Subscription) : Subscription.codec.Reads sub := by
  rw [Subscription.codec, Codec.strictObject_reads (by decide)]
  apply Fields.map_reads rfl
  rw [Fields.and_reads, Fields.defaulted_reads, Fields.required_reads]
  exact ⟨Codec.nullDefault_reads (fun h => nomatch h) (Codec.string_reads _), keys_reads _⟩

/-- The loop of the visitor puts every subscription back. -/
theorem foldlM_readEntry {out rest : Subscriptions} (h : Good L (out ++ rest)) :
    (rest.map fun e => (e.1, Subscription.codec.write e.2)).foldlM (readEntry L) out =
      some (out ++ rest) := by
  induction rest generalizing out with
  | nil => simp
  | cons e rest ih =>
    have hmem : e ∈ out ++ e :: rest := List.mem_append_right _ List.mem_cons_self
    have hlast : ∀ x ∈ out, x.1 < e.1 := fun x hx =>
      (List.pairwise_append.mp h.sorted).2.2 x hx e List.mem_cons_self
    have hnew : ¬(out.map Prod.fst).contains e.1 = true := by
      rw [List.contains_iff_mem, List.mem_map]
      rintro ⟨x, hx, heq⟩
      exact absurd heq (hlast x hx).ne
    have hroom : out.length ≠ maxSubscriptions := by
      have hlen := h.length
      rw [List.length_append, List.length_cons] at hlen
      omega
    have hguard : ¬(decide (out.length = maxSubscriptions) || !validId e.1 ||
        (out.map Prod.fst).contains e.1) = true := by
      rw [h.ids e hmem, decide_eq_false hroom]
      exact hnew
    have hread : Subscription.codec.read (Subscription.codec.write e.2) = some e.2 :=
      subscription_reads e.2
    have hone : readEntry L out (e.1, Subscription.codec.write e.2) = some (out ++ [e]) := by
      unfold readEntry
      dsimp only
      rw [if_neg hguard, hread]
      dsimp only
      rw [if_pos (h.valid e hmem), OrderedMap.insert_of_last hlast]
    rw [List.map_cons, List.foldlM_cons, hone]
    show List.foldlM (readEntry L) (out ++ [e]) _ = _
    rw [← List.singleton_append, ← List.append_assoc] at h
    rw [ih h, List.append_assoc, List.singleton_append]

/-- All subscriptions are read back. -/
theorem subscriptions_reads {subs : Subscriptions} (h : Good L subs) :
    (subscriptionsCodec L).Reads subs := by
  have hgood : Good L ([] ++ subs) := h
  exact foldlM_readEntry hgood

/-- The whole file is read back. -/
theorem diskState_reads {subs : Subscriptions} (h : Good L subs) (publicKey privateKey : String) :
    (DiskState.codec L).Reads (output publicKey privateKey subs) := by
  have hnodup : ["version", "public_key", "private_key", "subscriptions"].Nodup := by decide
  rw [DiskState.codec, Codec.strictObject_reads hnodup]
  apply Fields.map_reads rfl
  rw [Fields.and_reads, Fields.and_reads, Fields.and_reads, Fields.optional_reads,
    Fields.optional_reads, Fields.optional_reads, Fields.defaulted_reads]
  refine ⟨?_, ?_, ?_, ?_⟩
  · exact (Codec.option_reads_some _).mpr ⟨(fun h => nomatch h), Codec.int64_reads _⟩
  · exact (Codec.option_reads_some _).mpr ⟨(fun h => nomatch h), Codec.string_reads _⟩
  · exact (Codec.option_reads_some _).mpr ⟨(fun h => nomatch h), Codec.string_reads _⟩
  · exact Codec.nullDefault_reads (fun h => nomatch h) (subscriptions_reads h)

/-- `serde_json` reads the files of the store as it wrote them. -/
def ReadsFiles (S : Serde) (L : Libraries) : Prop :=
  ∀ publicKey privateKey subs, S.Reads ((DiskState.codec L).write
    (output publicKey privateKey subs))

/-- **What `save` writes is what `open` reads.** -/
theorem decodeFile_text (hserde : ReadsFiles S L) {publicKey privateKey : String}
    {subs : Subscriptions} (h : Good L subs) (hkeys : validateKeys L publicKey privateKey = true) :
    decodeFile S L (fileText S L (output publicKey privateKey subs)) =
      some (publicKey, privateKey, subs) := by
  have hread : (DiskState.codec L).read ((DiskState.codec L).write
      (output publicKey privateKey subs)) = some (output publicKey privateKey subs) :=
    diskState_reads h publicKey privateKey
  unfold decodeFile fileText
  rw [(hserde publicKey privateKey subs).fromSlice, Option.bind_some, hread]
  dsimp only [output]
  rw [if_neg (by simp), if_pos hkeys]

/-! ### Keys

The scalar and the point of a pair of keys have their own lengths and are written without padding.
-/

/-- The public point of a secret key is written uncompressed: 65 bytes that start with a 4. -/
def Uncompressed (L : Libraries) : Prop :=
  ∀ scalar point, L.secretKey scalar = some point → point.length = 65 ∧ point.head? = some 4

/-- A text of so many bytes is canonical. -/
theorem decodeCanonical_encode (l : List UInt8) :
    decodeCanonical (Base64.urlSafeNoPad l) l.length = some l := by
  unfold decodeCanonical
  rw [Base64.length_bytes_urlSafeNoPad, if_neg (by omega), Base64.urlSafeBytes_encode]
  dsimp only
  rw [if_neg (by simp)]

/-- **The generated keys are valid.** -/
theorem generateKeys_valid (hpoint : Uncompressed L) {tries : ℕ}
    {draws : List (Option (Vector UInt8 32))} {publicKey privateKey : String}
    (h : generateKeys L tries draws = some (publicKey, privateKey)) :
    validateKeys L publicKey privateKey = true := by
  induction tries generalizing draws with
  | zero => cases h
  | succ tries ih =>
    cases draws with
    | nil => cases h
    | cons draw draws =>
      cases draw with
      | none => cases h
      | some scalar =>
        rw [generateKeys] at h
        split at h
        · rename_i point hsecret
          obtain ⟨rfl, rfl⟩ := Prod.mk.inj (Option.some.inj h)
          obtain ⟨hlength, hhead⟩ := hpoint _ _ hsecret
          have hscalar : decodeCanonical (Base64.urlSafeNoPad scalar.toList) 32 =
              some scalar.toList := by
            have hcanonical := decodeCanonical_encode scalar.toList
            rwa [Vector.length_toList] at hcanonical
          have hpublic : decodeCanonical (Base64.urlSafeNoPad point) 65 = some point := by
            have hcanonical := decodeCanonical_encode point
            rwa [hlength] at hcanonical
          unfold validateKeys
          rw [hscalar]
          dsimp only
          rw [hsecret]
          dsimp only
          rw [hpublic]
          dsimp only
          rw [hhead]
          simp
        · exact ih h

/-- A subscription that is found is there. -/
theorem mem_of_lookup {subs : Subscriptions} {id : String} {sub : Subscription}
    (h : subs.lookup id = some sub) : (id, sub) ∈ subs := by
  obtain ⟨before, after, rfl, -⟩ := List.lookup_eq_some_iff.mp h
  exact List.mem_append_right _ List.mem_cons_self

/-! ### Transactions

A save either did not happen, or happened in both places, or happened in the file while the store
failed. -/

/-- **What a transaction does.**  It changes nothing; or the store fails, and the file stays or has
    the new subscriptions already; or both have them. -/
inductive Effect (S : Serde) (L : Libraries) (P : State → Subscriptions → Prop) (w : World) :
    Except Error Unit × World → Prop
  | same (r : Except Error Unit) : Effect S L P w (r, w)
  | failed (s : State) : w.store = some s → s.failed = false →
      Effect S L P w (.error .unavailable, ⟨w.file, some { s with failed := true }⟩)
  | lost (s : State) (next : Subscriptions) : w.store = some s → s.failed = false → P s next →
      Effect S L P w (.error .unavailable,
        ⟨some (fileText S L (output s.publicKey s.privateKey next)),
        some { s with failed := true }⟩)
  | saved (s : State) (next : Subscriptions) : w.store = some s → s.failed = false → P s next →
      Effect S L P w (.ok (),
        ⟨some (fileText S L (output s.publicKey s.privateKey next)),
          some { s with
            expected := some (L.sha256 (fileText S L (output s.publicKey s.privateKey next)))
            subscriptions := next }⟩)

variable {w : World} {P : State → Subscriptions → Prop}

/-- **A save** leaves the state before it or the one after it. -/
theorem save_effect {io : Io} {s : State} {next : Subscriptions} {check : Except Error Unit}
    (hstore : w.store = some s) (hopen : s.failed = false) (hnext : P s next) :
    Effect S L P w (save S L io w.file s next check) := by
  have hsame : ∀ r, Effect S L P w (r, ⟨w.file, some s⟩) := by
    intro r
    rw [← hstore]
    exact .same r
  unfold save
  rw [if_neg (by rw [hopen]; exact Bool.false_ne_true)]
  dsimp only
  split
  · exact hsame _
  · split
    · exact .failed s hstore hopen
    · split
      · exact .failed s hstore hopen
      · split
        · exact hsame _
        · cases io.outcome with
          | done => exact .saved s next hstore hopen hnext
          | beforeCommit => exact .failed s hstore hopen
          | afterCommit => exact .lost s next hstore hopen hnext

/-- A save that succeeds has written the file. -/
theorem save_ok {io : Io} {file : Option (List UInt8)} {s : State} {next : Subscriptions}
    {check : Except Error Unit} {w' : World} (h : save S L io file s next check = (.ok (), w')) :
    w' = ⟨some (fileText S L (output s.publicKey s.privateKey next)), some { s with
      expected := some (L.sha256 (fileText S L (output s.publicKey s.privateKey next)))
      subscriptions := next }⟩ := by
  unfold save at h
  dsimp only at h
  split at h
  · cases h
  · split at h
    · cases h
    · split at h
      · cases h
      · split at h
        · cases h
        · split at h
          · cases h
          · cases hio : io.outcome with
            | done =>
              rw [hio] at h
              exact (Prod.mk.inj h).2.symm
            | beforeCommit =>
              rw [hio] at h
              cases h
            | afterCommit =>
              rw [hio] at h
              cases h

/-- So does a transaction. -/
theorem transact_effect {admission : Admission} {work : State → Except Error Unit × World}
    (h : ∀ s, w.store = some s → s.failed = false → Effect S L P w (work s)) :
    Effect S L P w (transact admission w work) := by
  unfold transact
  split
  · exact .same _
  · exact .same _
  · exact .same _
  · exact .same _
  · rename_i s hstore
    split
    · exact .same _
    · rename_i hopen
      exact h s hstore (Bool.not_eq_true _ ▸ hopen)

/-! ### Subscribing

What is kept of the old subscriptions is decided one by one, by asking the login store. -/

variable {access : Auth.SessionAccess} {sub : Subscription} {env : SubscribeEnv}

/-- The loop of `subscribe` keeps some of the old subscriptions, none of them of the login or with
    the endpoint. -/
theorem foldlM_keep {live : String → Except Error Bool} {out rest next : Subscriptions}
    (hsorted : OrderedMap.Sorted (out ++ rest))
    (h : rest.foldlM (keep access sub live) out = .ok next) :
    ∃ kept, kept.Sublist rest ∧ next = out ++ kept ∧
      ∀ e ∈ kept, e.1 ≠ access.id ∧ e.2.endpoint ≠ sub.endpoint := by
  induction rest generalizing out with
  | nil =>
    cases h
    exact ⟨[], List.Sublist.refl _, (List.append_nil _).symm, fun _ he => nomatch he⟩
  | cons old rest ih =>
    have hskip : OrderedMap.Sorted (out ++ rest) :=
      List.Pairwise.sublist ((List.sublist_cons_self _ _).append_left _) hsorted
    rw [List.foldlM_cons] at h
    unfold keep at h
    split at h
    · rename_i hother
      rw [Bool.and_eq_true, decide_eq_true_eq, decide_eq_true_eq] at hother
      split at h
      · cases h
      · -- the subscription is kept, at the end of those before it
        have hlast : ∀ x ∈ out, x.1 < old.1 := fun x hx =>
          (List.pairwise_append.mp hsorted).2.2 x hx old List.mem_cons_self
        rw [OrderedMap.insert_of_last hlast] at h
        have hsorted' : OrderedMap.Sorted ((out ++ [old]) ++ rest) := by
          rwa [List.append_assoc, List.singleton_append]
        obtain ⟨kept, hsub, hnext, hkept⟩ := ih hsorted' h
        refine ⟨old :: kept, hsub.cons_cons _, ?_, ?_⟩
        · rw [hnext, List.append_assoc, List.singleton_append]
        · intro e he
          rcases List.mem_cons.mp he with rfl | he
          · exact hother
          · exact hkept e he
      · obtain ⟨kept, hsub, hnext, hkept⟩ := ih hskip h
        exact ⟨kept, hsub.cons _, hnext, hkept⟩
    · obtain ⟨kept, hsub, hnext, hkept⟩ := ih hskip h
      exact ⟨kept, hsub.cons _, hnext, hkept⟩

/-- A login that may call has a valid id. -/
theorem authorized_ok {current : Bool} (h : authorized access current = .ok ()) :
    validId access.id = true := by
  unfold authorized at h
  split at h
  · rename_i hok
    rw [Bool.and_eq_true] at hok
    exact hok.1
  · cases h

/-- **What `subscribe` saves is good.** -/
theorem subscribed_good {s : State} {next : Subscriptions}
    (hsub : validateSubscription L sub = true)
    (h : subscribed access sub env s = .ok next) (hgood : Good L s.subscriptions) :
    Good L next := by
  unfold subscribed at h
  obtain ⟨_, hauth, h⟩ := bind_ok h
  obtain ⟨-, -, h⟩ := bind_ok h
  obtain ⟨kept, hkeep, h⟩ := bind_ok h
  have hsorted : OrderedMap.Sorted ([] ++ s.subscriptions) := hgood.sorted
  -- the subscriptions of the same session or endpoint go first
  obtain ⟨kept, hsublist, rfl, hother⟩ := foldlM_keep hsorted hkeep
  dsimp only [List.nil_append] at h
  split at h
  · cases h
  · rename_i hroom
    obtain ⟨-, -, h⟩ := bind_ok h
    obtain ⟨-, -, h⟩ := bind_ok h
    obtain ⟨-, -, h⟩ := bind_ok h
    obtain rfl := Except.ok.inj h
    have hkept := hgood.sublist hsublist
    -- so that the new one is alone with both
    have hnew : access.id ∉ kept.map Prod.fst := by
      intro hmem
      obtain ⟨e, he, heq⟩ := List.mem_map.mp hmem
      exact (hother e he).1 heq
    have hperm : (OrderedMap.insert access.id sub kept).Perm ((access.id, sub) :: kept) :=
      OrderedMap.insert_perm hnew
    refine ⟨OrderedMap.insert_sorted hkept.sorted, ?_, ?_, ?_, by omega⟩
    · rw [(hperm.map (·.2.endpoint)).nodup_iff, List.map_cons, List.nodup_cons]
      refine ⟨fun hmem => ?_, hkept.endpoints⟩
      obtain ⟨e, he, heq⟩ := List.mem_map.mp hmem
      exact (hother e he).2 heq
    · intro e he
      rcases OrderedMap.mem_insert he with rfl | he
      · exact authorized_ok hauth
      · exact hkept.ids e he
    · intro e he
      rcases OrderedMap.mem_insert he with rfl | he
      · exact hsub
      · exact hkept.valid e he

/-- **What `subscribe` does.** -/
theorem subscribe_effect (S : Serde) (L : Libraries) (w : World) (access : Auth.SessionAccess)
    (sub : Subscription) (env : SubscribeEnv) :
    Effect S L (fun s next => Good L s.subscriptions → Good L next) w
      (subscribe S L w access sub env) := by
  unfold subscribe
  split
  · exact .same _
  · split
    · exact .same _
    · rename_i hvalid
      rw [Bool.not_eq_true, Bool.not_eq_false'] at hvalid
      refine transact_effect ?_
      intro s hstore hopen
      split
      · exact .same _
      · rename_i next hnext
        exact save_effect hstore hopen fun hgood => subscribed_good hvalid hnext hgood

/-! ### Removing

A guard names the endpoint that the caller saw, so that a subscription which replaced it in the
meantime stays. -/

/-- **What `remove` does**: the subscription of the login goes when no guard names another
    endpoint. -/
theorem remove_effect (S : Serde) (L : Libraries) (w : World) (loginId : String)
    (guard : Option String) (env : RemoveEnv) :
    Effect S L (fun s next => next = s.subscriptions.filter (fun e => e.1 ≠ loginId) ∧
        ∃ old, s.subscriptions.lookup loginId = some old ∧
          ∀ e, guard = some e → e ≠ "" → old.endpoint = e) w
      (remove S L w loginId guard env) := by
  unfold remove
  split
  · exact .same _
  · refine transact_effect ?_
    intro s hstore hopen
    split
    · exact .same _
    · rename_i old hold
      split
      · exact .same _
      · rename_i hguard
        split
        · exact .same _
        · refine save_effect hstore hopen ⟨rfl, old, hold, ?_⟩
          rintro e rfl hne
          rw [Option.any_some, Bool.and_eq_true, decide_eq_true_eq, decide_eq_true_eq] at hguard
          by_contra hother
          exact hguard ⟨hne, fun heq => hother heq.symm⟩

/-! ### Runs

A store may be opened again at any time, over whatever the file has then. -/

/-- The file is one that was written, and an open store that has not failed has what it says. -/
structure World.Inv (S : Serde) (L : Libraries) (w : World) : Prop where
  file : ∀ raw, w.file = some raw → ∃ publicKey privateKey subs, Good L subs ∧
    validateKeys L publicKey privateKey = true ∧
    raw = fileText S L (output publicKey privateKey subs)
  good : ∀ s, w.store = some s → Good L s.subscriptions ∧
    validateKeys L s.publicKey s.privateKey = true
  same : ∀ s, w.store = some s → s.failed = false →
    w.file = some (fileText S L (output s.publicKey s.privateKey s.subscriptions))

/-- A fresh directory has nothing in it to check. -/
theorem inv_fresh (S : Serde) (L : Libraries) : World.Inv S L .fresh where
  file _ h := nomatch h
  good _ h := nomatch h
  same _ h := nomatch h

/-- A transaction that saves good subscriptions keeps the invariant. -/
theorem Effect.inv {r : Except Error Unit} {w' : World} (h : Effect S L P w (r, w'))
    (hinv : w.Inv S L) (hgood : ∀ s next, P s next → Good L s.subscriptions → Good L next) :
    w'.Inv S L := by
  cases h with
  | same => exact hinv
  | failed s hstore hopen =>
    refine ⟨hinv.file, ?_, ?_⟩
    · intro s' hs'
      obtain rfl := Option.some.inj hs'
      exact hinv.good s hstore
    · intro s' hs' hopen'
      obtain rfl := Option.some.inj hs'
      cases hopen'
  | lost s next hstore hopen hnext =>
    obtain ⟨hsubs, hkeys⟩ := hinv.good s hstore
    refine ⟨?_, ?_, ?_⟩
    · intro raw hraw
      exact ⟨s.publicKey, s.privateKey, next, hgood s next hnext hsubs, hkeys,
        (Option.some.inj hraw).symm⟩
    · intro s' hs'
      obtain rfl := Option.some.inj hs'
      exact hinv.good s hstore
    · intro s' hs' hopen'
      obtain rfl := Option.some.inj hs'
      cases hopen'
  | saved s next hstore hopen hnext =>
    obtain ⟨hsubs, hkeys⟩ := hinv.good s hstore
    refine ⟨?_, ?_, ?_⟩
    · intro raw hraw
      exact ⟨s.publicKey, s.privateKey, next, hgood s next hnext hsubs, hkeys,
        (Option.some.inj hraw).symm⟩
    · intro s' hs'
      obtain rfl := Option.some.inj hs'
      exact ⟨hgood s next hnext hsubs, hkeys⟩
    · intro s' hs' _
      obtain rfl := Option.some.inj hs'
      rfl

/-- Opening: a file that was written is loaded as it was, and a new one has no subscriptions. -/
theorem openStore_inv (hserde : ReadsFiles S L) (hpoint : Uncompressed L) {io : Io} {lock : Bool}
    {draws : List (Option (Vector UInt8 32))} (hinv : w.Inv S L) :
    (openStore S L io lock draws w.file).2.Inv S L := by
  have hclosed : World.Inv S L ⟨w.file, none⟩ :=
    ⟨hinv.file, (fun _ h => nomatch h), (fun _ h => nomatch h)⟩
  unfold openStore
  split
  · exact hclosed
  -- there is a file, or a new one is made
  · split
    · exact hclosed
    · rename_i raw hread
      have hfile : w.file = some raw := by
        unfold read at hread
        split at hread
        · cases hread
        · exact Option.some.inj hread
      -- what was written before can be read
      obtain ⟨publicKey, privateKey, subs, hsubs, hkeys, hraw⟩ := hinv.file raw hfile
      rw [hraw, decodeFile_text hserde hsubs hkeys]
      dsimp only
      refine ⟨hinv.file, ?_, ?_⟩
      · intro s hs
        obtain rfl := Option.some.inj hs
        exact ⟨hsubs, hkeys⟩
      · intro s hs _
        obtain rfl := Option.some.inj hs
        rw [hfile, hraw]
    · split
      · exact hclosed
      · rename_i publicKey privateKey hgenerate
        -- the store of a new file has its keys and no subscriptions
        have hkeys := generateKeys_valid hpoint hgenerate
        -- the first file is written by a transaction on a store that nobody has yet
        have heffect : Effect S L (fun _ next => next = [])
            ⟨w.file, some ⟨none, publicKey, privateKey, [], false⟩⟩
            (save S L io w.file ⟨none, publicKey, privateKey, [], false⟩ [] (.ok ())) :=
          save_effect rfl rfl rfl
        cases hsave : save S L io w.file ⟨none, publicKey, privateKey, [], false⟩ [] (.ok ()) with
        | mk r w' =>
          rw [hsave] at heffect
          cases r with
          | error e =>
            dsimp only
            refine ⟨?_, (fun _ h => nomatch h), (fun _ h => nomatch h)⟩
            intro raw hraw
            cases heffect with
            | same => exact hinv.file raw hraw
            | failed => exact hinv.file raw hraw
            | lost s next hstore hopen hnext =>
              obtain rfl := Option.some.inj hstore
              subst hnext
              exact ⟨publicKey, privateKey, [], good_nil L, hkeys, (Option.some.inj hraw).symm⟩
          | ok u =>
            dsimp only
            rw [save_ok hsave]
            refine ⟨?_, ?_, ?_⟩
            · intro raw hraw
              exact ⟨publicKey, privateKey, [], good_nil L, hkeys, (Option.some.inj hraw).symm⟩
            · intro s hs
              obtain rfl := Option.some.inj hs
              exact ⟨good_nil L, hkeys⟩
            · intro s hs _
              obtain rfl := Option.some.inj hs
              rfl

/-- **Step lemma.** Memory and disk agree after every call. -/
theorem step_inv (hserde : ReadsFiles S L) (hpoint : Uncompressed L) (hinv : w.Inv S L) (op : Op) :
    (step S L w op).2.Inv S L := by
  cases op with
  | reopen io lock draws => exact openStore_inv hserde hpoint hinv
  | subscribe access sub env =>
    exact (subscribe_effect S L w access sub env).inv hinv fun _ _ h => h
  | remove loginId guard env =>
    refine (remove_effect S L w loginId guard env).inv hinv ?_
    rintro s next ⟨rfl, -⟩ hgood
    exact hgood.sublist List.filter_sublist

/-- **In every run** the invariant holds. -/
theorem run_inv (hserde : ReadsFiles S L) (hpoint : Uncompressed L) (ops : List Op) :
    (run S L .fresh ops).Inv S L := by
  have hrun : ∀ (ops : List Op) (w : World), w.Inv S L → (run S L w ops).Inv S L := by
    intro ops
    induction ops with
    | nil => exact fun w hinv => hinv
    | cons op ops ih => exact fun w hinv => ih _ (step_inv hserde hpoint hinv op)
  exact hrun ops .fresh (inv_fresh S L)

/-- A transaction is a step that does not open the store. -/
def Op.Transaction : Op → Prop
  | .reopen _ _ _ => False
  | _ => True

/-- What a transaction does, whatever it saves. -/
theorem step_effect {op : Op} (h : op.Transaction) :
    Effect S L (fun _ _ => True) w (step S L w op) := by
  have hweaken : ∀ {P : State → Subscriptions → Prop} {x : Except Error Unit × World},
      Effect S L P w x → Effect S L (fun _ _ => True) w x := by
    intro P x hx
    cases hx with
    | same r => exact .same r
    | failed s hstore hopen => exact .failed s hstore hopen
    | lost s next hstore hopen _ => exact .lost s next hstore hopen trivial
    | saved s next hstore hopen _ => exact .saved s next hstore hopen trivial
  cases op with
  | reopen io lock draws => exact h.elim
  | subscribe access sub env => exact hweaken (subscribe_effect S L w access sub env)
  | remove loginId guard env => exact hweaken (remove_effect S L w loginId guard env)

/-- The subscriptions of a file. -/
def decoded (S : Serde) (L : Libraries) (file : Option (List UInt8)) : Option Subscriptions :=
  (file.bind (decodeFile S L)).map (·.2.2)

/-- A file that was written is read back. -/
theorem decoded_text (hserde : ReadsFiles S L) {publicKey privateKey : String}
    {subs : Subscriptions}
    (h : Good L subs) (hkeys : validateKeys L publicKey privateKey = true) :
    decoded S L (some (fileText S L (output publicKey privateKey subs))) = some subs := by
  unfold decoded
  rw [Option.bind_some, decodeFile_text hserde h hkeys]
  rfl

/-- **A guarded removal** takes no subscription with another endpoint, from the memory or from the
    file. -/
theorem remove_guarded (hserde : ReadsFiles S L) (hinv : w.Inv S L) {loginId e : String}
    {env : RemoveEnv} (hne : e ≠ "") :
    (∀ s s', w.store = some s → (remove S L w loginId (some e) env).2.store = some s' →
      ∀ x ∈ s.subscriptions, x.2.endpoint ≠ e → x ∈ s'.subscriptions) ∧
    ∀ subs, decoded S L w.file = some subs →
      ∃ subs', decoded S L (remove S L w loginId (some e) env).2.file = some subs' ∧
        ∀ x ∈ subs, x.2.endpoint ≠ e → x ∈ subs' := by
  have heffect := remove_effect S L w loginId (some e) env
  -- the subscription that goes has the endpoint
  have hkept : ∀ s next, w.store = some s → next = s.subscriptions.filter (fun x => x.1 ≠ loginId) →
      (∃ old, s.subscriptions.lookup loginId = some old ∧
        ∀ e', some e = some e' → e' ≠ "" → old.endpoint = e') →
      ∀ x ∈ s.subscriptions, x.2.endpoint ≠ e → x ∈ next := by
    rintro s _ hstore rfl ⟨old, hold, hguard⟩ x hx hother
    refine List.mem_filter.mpr ⟨hx, ?_⟩
    rw [decide_eq_true_eq]
    rintro rfl
    have hmem : (x.1, old) ∈ s.subscriptions := mem_of_lookup hold
    have heq := (hinv.good s hstore).1.unique hx hmem
    rw [heq] at hother
    exact hother (hguard e rfl hne)
  have hstays : ∀ subs : Subscriptions, decoded S L w.file = some subs →
      ∃ subs', decoded S L w.file = some subs' ∧ ∀ x ∈ subs, x.2.endpoint ≠ e → x ∈ subs' :=
    fun subs hsubs => ⟨subs, hsubs, fun x hx _ => hx⟩
  -- with its endpoint guarded, only that subscription goes
  have hwritten : ∀ s next, w.store = some s → s.failed = false →
      next = s.subscriptions.filter (fun x => x.1 ≠ loginId) →
      (∀ x ∈ s.subscriptions, x.2.endpoint ≠ e → x ∈ next) →
      ∀ subs, decoded S L w.file = some subs → ∃ subs',
        decoded S L (some (fileText S L (output s.publicKey s.privateKey next))) = some subs' ∧
        ∀ x ∈ subs, x.2.endpoint ≠ e → x ∈ subs' := by
    -- memory and file agree as long as the storage works
    rintro s next hstore hopen rfl hnext subs hsubs
    obtain ⟨hgood, hkeys⟩ := hinv.good s hstore
    rw [hinv.same s hstore hopen, decoded_text hserde hgood hkeys] at hsubs
    obtain rfl := Option.some.inj hsubs
    exact ⟨_, decoded_text hserde (hgood.sublist List.filter_sublist) hkeys, hnext⟩
  cases hr : remove S L w loginId (some e) env with
  | mk r w' =>
    rw [hr] at heffect
    dsimp only
    cases heffect with
    -- whatever the transaction did, it is one of these
    | same =>
      refine ⟨?_, hstays⟩
      intro s s' hs hs' x hx _
      rw [hs] at hs'
      obtain rfl := Option.some.inj hs'
      exact hx
    | failed t hstore hopen =>
      refine ⟨?_, hstays⟩
      intro s s' hs hs' x hx _
      rw [hstore] at hs
      obtain rfl := Option.some.inj hs
      obtain rfl := Option.some.inj hs'
      exact hx
    | lost t next hstore hopen hnext =>
      refine ⟨?_, hwritten t next hstore hopen hnext.1 (hkept t next hstore hnext.1 hnext.2)⟩
      intro s s' hs hs' x hx _
      rw [hstore] at hs
      obtain rfl := Option.some.inj hs
      obtain rfl := Option.some.inj hs'
      exact hx
    | saved t next hstore hopen hnext =>
      have hstay := hkept t next hstore hnext.1 hnext.2
      refine ⟨?_, hwritten t next hstore hopen hnext.1 hstay⟩
      intro s s' hs hs' x hx hother
      rw [hstore] at hs
      obtain rfl := Option.some.inj hs
      obtain rfl := Option.some.inj hs'
      exact hstay x hx hother

/-- **What the push store keeps, in every run from nothing.** -/
theorem subscriptions_kept (hserde : ReadsFiles S L) (hpoint : Uncompressed L) (ops : List Op) :
    (∀ s, (run S L .fresh ops).store = some s →
      (s.subscriptions.map Prod.fst).Nodup ∧ (s.subscriptions.map (·.2.endpoint)).Nodup ∧
      s.subscriptions.length ≤ 256 ∧
      (s.failed = false → decoded S L (run S L .fresh ops).file = some s.subscriptions) ∧
      (s.failed = true → ∀ op : Op, op.Transaction →
        (step S L (run S L .fresh ops) op).2 = run S L .fresh ops)) ∧
    (∀ raw, (run S L .fresh ops).file = some raw → ∃ subs, decoded S L (some raw) = some subs ∧
      (subs.map Prod.fst).Nodup ∧ (subs.map (·.2.endpoint)).Nodup ∧ subs.length ≤ 256) ∧
    (∀ loginId e env, e ≠ "" →
      (∀ s s', (run S L .fresh ops).store = some s →
        (remove S L (run S L .fresh ops) loginId (some e) env).2.store = some s' →
        ∀ x ∈ s.subscriptions, x.2.endpoint ≠ e → x ∈ s'.subscriptions) ∧
      ∀ subs, decoded S L (run S L .fresh ops).file = some subs → ∃ subs',
        decoded S L (remove S L (run S L .fresh ops) loginId (some e) env).2.file = some subs' ∧
        ∀ x ∈ subs, x.2.endpoint ≠ e → x ∈ subs') ∧
    ∀ op : Op, op.Transaction → ∀ e, (step S L (run S L .fresh ops) op).1 = .error e →
      e = .unauthorized ∨ e = .busy ∨ e = .invalid →
      (step S L (run S L .fresh ops) op).2 = run S L .fresh ops := by
  have hinv := run_inv hserde hpoint ops
  generalize run S L .fresh ops = w at hinv ⊢
  refine ⟨?_, ?_, fun loginId e env hne => remove_guarded hserde hinv hne, ?_⟩
  · intro s hs
    obtain ⟨hgood, hkeys⟩ := hinv.good s hs
    refine ⟨sorted_nodup hgood.sorted, hgood.endpoints, hgood.length, ?_, ?_⟩
    · intro hopen
      rw [hinv.same s hs hopen]
      exact decoded_text hserde hgood hkeys
    · intro hfailed op hop
      have heffect : Effect S L (fun _ _ => True) w (step S L w op) := step_effect hop
      cases hr : step S L w op with
      | mk r w' =>
        rw [hr] at heffect
        -- a failed storage takes no transaction
        have hclosed : ∀ t, w.store = some t → t.failed = false → w' = w := by
          intro t ht hopen
          rw [hs] at ht
          obtain rfl := Option.some.inj ht
          rw [hfailed] at hopen
          cases hopen
        cases heffect with
        | same => rfl
        | failed t hstore hopen => exact hclosed t hstore hopen
        | lost t next hstore hopen _ => exact hclosed t hstore hopen
        | saved t next hstore hopen _ => exact hclosed t hstore hopen
  · intro raw hraw
    obtain ⟨publicKey, privateKey, subs, hgood, hkeys, rfl⟩ := hinv.file raw hraw
    exact ⟨subs, decoded_text hserde hgood hkeys, sorted_nodup hgood.sorted, hgood.endpoints,
      hgood.length⟩
  · intro op hop e he hkind
    have heffect : Effect S L (fun _ _ => True) w (step S L w op) := step_effect hop
    cases hr : step S L w op with
    | mk r w' =>
      rw [hr] at heffect he
      dsimp only at he
      -- the errors of a refusal are not those of the storage
      have hother : r ≠ .error .unavailable := by
        rw [he]
        rcases hkind with rfl | rfl | rfl
        · exact fun h => nomatch h
        · exact fun h => nomatch h
        · exact fun h => nomatch h
      cases heffect with
      | same => rfl
      | failed => exact absurd rfl hother
      | lost => exact absurd rfl hother
      | saved => cases he

end

/-! ### One login that subscribes

Keys are generated, and the first subscription is stored. -/

namespace FirstExample

/-- The generator of the curve P-256, uncompressed: the public key of the scalar 1. -/
def generator : List UInt8 :=
  [4, 0x6B, 0x17, 0xD1, 0xF2, 0xE1, 0x2C, 0x42, 0x47, 0xF8, 0xBC, 0xE6, 0xE5, 0x63, 0xA4, 0x40,
    0xF2, 0x77, 0x03, 0x7D, 0x81, 0x2D, 0xEB, 0x33, 0xA0, 0xF4, 0xA1, 0x39, 0x45, 0xD8, 0x98, 0xC2,
    0x96, 0x4F, 0xE3, 0x42, 0xE2, 0xFE, 0x1A, 0x7F, 0x9B, 0x8E, 0xE7, 0xEB, 0x4A, 0x7C, 0x0F, 0x9E,
    0x16, 0x2B, 0xCE, 0x33, 0x57, 0x6B, 0x31, 0x5E, 0xCE, 0xCB, 0xB6, 0x40, 0x68, 0x37, 0xBF, 0x51,
    0xF5]

/-- The scalar 1. -/
def scalar : Vector UInt8 32 := Vector.ofFn fun i => if i.val = 31 then 1 else 0

/-- The libraries on the inputs of the example; the first bytes of a file stand for its digest. -/
def libraries : Libraries where
  sha256 raw := Vector.ofFn fun i => raw.getD i.val 0
  uri text :=
    if text = "https://fcm.googleapis.com/a" then some ⟨some "https", some "fcm.googleapis.com",
      false⟩
    else none
  publicKey point := point = generator
  secretKey bytes := if bytes = scalar.toList then some generator else none

/-- The points of the example are uncompressed. -/
theorem libraries_uncompressed : Uncompressed libraries := by
  intro bytes point h
  dsimp only [libraries] at h
  split at h
  · obtain rfl := Option.some.inj h
    exact ⟨rfl, rfl⟩
  · cases h

/-- A file of the store has no doubles. -/
theorem compact_readsFiles : ReadsFiles Json.Compact.serde libraries := by
  intro publicKey privateKey subs
  apply Json.Compact.serde_reads
  have hsubs : Json.Compact.plainFields
      (subs.map fun e => (e.1, Subscription.codec.write e.2)) = true := by
    induction subs with
    | nil => rfl
    | cons e subs ih =>
      rw [List.map_cons, Json.Compact.plainFields, ih]
      rfl
  show Json.Compact.plainFields [("version", .int 1), ("public_key", .str publicKey),
    ("private_key", .str privateKey), ("subscriptions",
      .obj (subs.map fun e => (e.1, Subscription.codec.write e.2)))] = true
  simp only [Json.Compact.plainFields, Json.Compact.plain, hsubs, Bool.and_self]

def access : Auth.SessionAccess :=
  ⟨Base64.urlSafeNoPad (List.replicate 32 0), 0, "", "owner", "", 0⟩

def subscription : Subscription where
  endpoint := "https://fcm.googleapis.com/a"
  keys := ⟨Base64.urlSafeNoPad (List.replicate 16 0), Base64.urlSafeNoPad generator⟩

/-- Every check passes and every write succeeds. -/
def env : SubscribeEnv where
  current := true
  admission := .admitted
  current₁ := true
  live₁ := .ok true
  liveOld _ := .ok true
  current₂ := true
  live₂ := .ok true
  gone₂ := false
  io := ⟨true, .done⟩
  current₃ := true
  live₃ := .ok true
  current₄ := true
  gone₃ := false

def ops : List Op := [.reopen ⟨true, .done⟩ true [some scalar], .subscribe access subscription env]

/-- The login is subscribed, and the file says so. -/
theorem first_subscribed :
    (run Json.Compact.serde libraries .fresh ops).store.map (·.subscriptions) =
        some [(access.id, subscription)] ∧
      decoded Json.Compact.serde libraries (run Json.Compact.serde libraries .fresh ops).file =
        some [(access.id, subscription)] := by
  have hstore : ∃ s, (run Json.Compact.serde libraries .fresh ops).store = some s ∧
      s.failed = false ∧ s.subscriptions = [(access.id, subscription)] := by
    have hsome : ((run Json.Compact.serde libraries .fresh ops).store.map fun s =>
        (s.failed, s.subscriptions)) = some (false, [(access.id, subscription)]) := by
      decide +kernel
    obtain ⟨s, hs, heq⟩ := Option.map_eq_some_iff.mp hsome
    exact ⟨s, hs, (Prod.mk.inj heq).1, (Prod.mk.inj heq).2⟩
  obtain ⟨s, hs, hopen, hsubs⟩ := hstore
  have hkept := subscriptions_kept compact_readsFiles libraries_uncompressed ops
  refine ⟨?_, ?_⟩
  · rw [hs, Option.map_some, hsubs]
  · rw [(hkept.1 s hs).2.2.2.1 hopen, hsubs]

end FirstExample

end Hmux.Push
