import Hmux.Lib.Json.Reader
import Hmux.Model.Catalog
import Hmux.Protocol.Validate

namespace Hmux.Protocol

open Lib Pb

/-!
# Requests as JSON: what the preflight leaves room for

A request that goes to a peer of the first protocol carries its payload as JSON
(`actions::request_payload`).  The payload is checked first by `validate_request`, which adds
up the lengths of its texts, and is then written into a buffer that ends at a limit.

The limit of the sum and the limit of the buffer are the same number, less a margin for some
of the payloads.  `requestPayload_ok_iff` says for which requests that is enough when no text
has to be escaped:

* a workspace, an alias and a visibility always fit;
* a new session fits unless `create_directory` is set, which its margin does not count;
* a provider key and a provider job have no margin: 24 and 37 bytes of syntax are missing.
-/

/-! ### The payloads

The JSON of each payload, with the fields in the order in which they are declared. -/

/-- `Create`. -/
def createCodec : Codec CreateRequest :=
  .object <| Fields.map
    (Fields.and (.defaulted "profile" Codec.string.option none) <|
     Fields.and (.defaulted "name" Codec.string.option none) <| .omitNone "create_directory" .bool)
    (fun (profile, name, createDirectory) => ⟨profile, name, createDirectory⟩)
    (fun v => (v.profile, v.name, v.createDirectory))

/-- `Alias`. -/
def aliasCodec : Codec AliasRequest :=
  .object <| Fields.map (.defaulted "alias" Codec.string.option none) (fun v => ⟨v⟩) (·.«alias»)

/-- `Hidden`. -/
def hiddenCodec : Codec HiddenRequest :=
  .object <| Fields.map (.required "hidden" .bool) (fun v => ⟨v⟩) (·.hidden)

/-- The fields of `workspace::Change`. -/
def changeFields : Fields Workspace.Change :=
  Fields.map
    (Fields.and (.defaulted "operation_id" (.nullDefault .string "") "") <|
     Fields.and (.defaulted "revision" (.nullDefault .uint64 0) 0) <|
     Fields.and (.defaulted "base" (.nullDefault Model.identityCodec.list []) []) <|
     Fields.and (.defaulted "tabs" (.nullDefault Model.identityCodec.list []) []) <|
     .omitNone "selected" Model.identityCodec)
    (fun (operationId, revision, base, tabs, selected) =>
      ⟨operationId, revision, base, tabs, selected⟩)
    (fun v => (v.operationId, v.revision, v.base, v.tabs, v.selected))

/-- `workspace::Change`. -/
def changeCodec : Codec Workspace.Change := .objectOrNull changeFields ⟨"", 0, [], [], none⟩

/-- `Workspace`. -/
def workspaceCodec : Codec (Option Workspace.Change) :=
  .object (.defaulted "change" changeCodec.option none)

/-- `ProviderKey`. -/
def providerKeyCodec : Codec ProviderKeyRequest :=
  .object <| Fields.map (Fields.and (.text "provider") <| .text "key")
    (fun (provider, key) => ⟨provider, key⟩) (fun v => (v.provider, v.key))

/-- `ProviderJob`. -/
def providerJobCodec : Codec ProviderJobRequest :=
  .object <| Fields.map (Fields.and (.text "provider") <| Fields.and
    (.text "action") <| .text "text")
    (fun (provider, action, text) => ⟨provider, action, text⟩)
    (fun v => (v.provider, v.action, v.text))

/-! ### The writer

The writer stops at the end of its buffer, so a payload fits or there is an error; it is never cut.
-/

/-- `workspace::MAX_BYTES`. -/
def workspaceMaxBytes : ℕ := 32768

section

variable (S : Serde)

/-- `encode`: a buffer of `max` bytes that refuses the first write beyond its end. -/
def encodeJson {α : Type} (c : Codec α) (v : α) (max : ℕ) : Except Error (List UInt8) :=
  if (S.text (c.write v)).length ≤ max then .ok (S.text (c.write v)) else .error .size

/-- `request_payload_unchecked`. -/
def requestPayloadUnchecked (v : Request) : Except Error (List UInt8) := do
  match ← okOr v.payload .fields with
  | .empty _ => return []
  | .create v => encodeJson S createCodec v actionMax
  | .«alias» v => encodeJson S aliasCodec v actionMax
  | .hidden v => encodeJson S hiddenCodec v actionMax
  | .workspace v => do
    let change ← v.change.mapM workspaceChangeFromProto
    encodeJson S workspaceCodec change (workspaceMaxBytes + 32)
  | .providerKey v => encodeJson S providerKeyCodec v actionMax
  | .providerJob v => encodeJson S providerJobCodec v actionMax

/-- `request_payload`. -/
def requestPayload (v : Request) : Except Error (List UInt8) := do
  validateRequest v
  requestPayloadUnchecked S v

end

/-! ### What fits

The length of each payload, from the lengths of its texts and the syntax around them. -/

/-- The texts of a payload. -/
def payloadTexts : RequestPayload → List String
  | .empty _ | .hidden _ => []
  | .create x => x.profile.toList ++ x.name.toList
  | .«alias» x => x.«alias».toList
  | .workspace x =>
    (x.change.map fun c => c.operationId :: (c.base ++ c.tabs ++ c.selected.toList).map (·.id)).getD
      []
  | .providerKey x => [x.provider, x.key]
  | .providerJob x => [x.provider, x.action, x.text]

/-- The length of an optional text with its quotes, or of a null. -/
def optionLen (x : Option String) : ℕ := (x.map fun s => len s + 2).getD 4

/-- The payload fits in the buffer of its kind. -/
def payloadFits : RequestPayload → Bool
  | .empty _ | .«alias» _ | .hidden _ | .workspace _ => true
  | .create x =>
    20 + optionLen x.profile + optionLen x.name +
      (x.createDirectory.map fun b => if b then 24 else 25).getD 0 ≤ actionMax
  | .providerKey x => len x.provider + len x.key + 24 ≤ actionMax
  | .providerJob x => len x.provider + len x.action + len x.text + 37 ≤ actionMax

section

variable {S : Serde}

/-- Something is encoded when it is not too long. -/
theorem encode_ok_iff {α : Type} {c : Codec α} {v : α} {max : ℕ} :
    (∃ raw, encodeJson S c v max = .ok raw) ↔ (S.text (c.write v)).length ≤ max := by
  unfold encodeJson
  split
  · rename_i h
    exact iff_of_true ⟨_, rfl⟩ h
  · rename_i h
    exact iff_of_false (by rintro ⟨raw, hraw⟩; cases hraw) h

/-- An optional text that has no escapes. -/
theorem length_option {x : Option String} (h : ∀ s ∈ x, Json.unescaped s = true) :
    (S.text (Codec.string.option.write x)).length = optionLen x := by
  cases x with
  | none => rfl
  | some s =>
    show (Json.text S.format (.str s)).length = len s + 2
    rw [Json.text]
    exact Json.length_quote_of_unescaped (h s rfl)

/-- A text without escapes takes its bytes and two quotes. -/
theorem length_str {s : String} (h : Json.unescaped s = true) :
    (Json.text S.format (.str s)).length = len s + 2 := by
  rw [Json.text]
  exact Json.length_quote_of_unescaped h

/-- A new session. -/
theorem length_create {x : CreateRequest} (hprofile : ∀ s ∈ x.profile, Json.unescaped s = true)
    (hname : ∀ s ∈ x.name, Json.unescaped s = true) :
    (S.text (createCodec.write x)).length
      = 20 + optionLen x.profile + optionLen x.name +
        (x.createDirectory.map fun b => if b then 24 else 25).getD 0 := by
  obtain ⟨profile, name, createDirectory⟩ := x
  have hp := length_option (S := S) hprofile
  have hn := length_option (S := S) hname
  unfold Serde.text at hp hn
  cases createDirectory with
  | none =>
    show (Json.text S.format (.obj [("profile", _), ("name", _)])).length = _
    rw [Json.length_text_obj_cons, Json.length_textMoreFields_cons, hp, hn,
      Json.length_textMoreFields_nil, show (Json.quote "profile").length = 9 by decide,
      show (Json.quote "name").length = 6 by decide]
    simp only [Option.map_none, Option.getD_none]
    omega
  | some b =>
    have hb : (Json.text S.format (.bool b)).length = if b then 4 else 5 := by
      rw [Json.text]
      cases b <;> decide
    show (Json.text S.format (.obj [("profile", _), ("name", _),
      ("create_directory", .bool b)])).length
      = _
    rw [Json.length_text_obj_cons, Json.length_textMoreFields_cons,
      Json.length_textMoreFields_cons, hp, hn, hb, Json.length_textMoreFields_nil,
      show (Json.quote "profile").length = 9 by decide,
      show (Json.quote "name").length = 6 by decide,
      show (Json.quote "create_directory").length = 18 by decide]
    simp only [Option.map_some, Option.getD_some]
    cases b <;> simp only [if_true, if_false, Bool.false_eq_true] <;> omega

/-- The length of an alias in JSON. -/
theorem length_alias {x : AliasRequest} (h : ∀ s ∈ x.«alias», Json.unescaped s = true) :
    (S.text (aliasCodec.write x)).length = 10 + optionLen x.«alias» := by
  have ha := length_option (S := S) h
  unfold Serde.text at ha
  show (Json.text S.format (.obj [("alias", _)])).length = _
  rw [Json.length_text_obj_cons, ha, Json.length_textMoreFields_nil,
    show (Json.quote "alias").length = 7 by decide]
  omega

/-- The length of a flag in JSON. -/
theorem length_hidden (x : HiddenRequest) : (S.text (hiddenCodec.write x)).length ≤ 16 := by
  have hb : (Json.text S.format (.bool x.hidden)).length ≤ 5 := by
    rw [Json.text]
    cases x.hidden <;> decide
  show (Json.text S.format (.obj [("hidden", .bool x.hidden)])).length ≤ _
  rw [Json.length_text_obj_cons, Json.length_textMoreFields_nil,
    show (Json.quote "hidden").length = 8 by decide]
  omega

/-- The length of a key in JSON. -/
theorem length_providerKey {x : ProviderKeyRequest} (hprovider : Json.unescaped x.provider = true)
    (hkey : Json.unescaped x.key = true) :
    (S.text (providerKeyCodec.write x)).length = len x.provider + len x.key + 24 := by
  show (Json.text S.format (.obj [("provider", .str x.provider), ("key", .str x.key)])).length = _
  rw [Json.length_text_obj_cons, Json.length_textMoreFields_cons, length_str hprovider,
    length_str hkey, Json.length_textMoreFields_nil,
    show (Json.quote "provider").length = 10 by decide,
    show (Json.quote "key").length = 5 by decide]
  omega

/-- The length of a job in JSON. -/
theorem length_providerJob {x : ProviderJobRequest} (hprovider : Json.unescaped x.provider = true)
    (haction : Json.unescaped x.action = true) (htext : Json.unescaped x.text = true) :
    (S.text (providerJobCodec.write x)).length
      = len x.provider + len x.action + len x.text + 37 := by
  show (Json.text S.format
    (.obj [("provider", .str x.provider), ("action", .str x.action),
      ("text", .str x.text)])).length = _
  rw [Json.length_text_obj_cons, Json.length_textMoreFields_cons, Json.length_textMoreFields_cons,
    length_str hprovider, length_str haction, length_str htext, Json.length_textMoreFields_nil,
    show (Json.quote "provider").length = 10 by decide,
    show (Json.quote "action").length = 8 by decide,
    show (Json.quote "text").length = 6 by decide]
  omega

/-! ### A workspace

Its limit is a multiple of what the identities that pass the preflight can take. -/

/-- An identity with a tmux id is short. -/
theorem length_identity {id : SessionIdentity} (h : validateSessionId id.id = true) :
    (Json.text S.format (Model.identityCodec.write id)).length ≤ 128 := by
  have hid : (bytes id.id).length ≤ 13 := by
    unfold validateSessionId at h
    simp only [Bool.and_eq_true, decide_eq_true_eq] at h
    exact h.1.1.2
  have hquote := Json.length_quote_le id.id
  have hrange : id.createdAt.toInt.natAbs < 10 ^ 19 := by
    have hlow := id.createdAt.le_toInt
    have hhigh := id.createdAt.toInt_lt
    omega
  have hdecimal := Json.length_decimal_le (by decide) hrange
  show (Json.text S.format (.obj [("id", .str id.id),
    ("created_at", .int id.createdAt.toInt)])).length
    ≤ 128
  rw [Json.length_text_obj_cons, Json.length_textMoreFields_cons, Json.length_textMoreFields_nil,
    Json.text, Json.text, show (Json.quote "id").length = 4 by decide,
    show (Json.quote "created_at").length = 12 by decide]
  omega

/-- The tabs of a change take at most so much. -/
theorem length_identities {ids : List SessionIdentity} (h : Workspace.validIds ids = true) :
    (Json.text S.format (.arr (ids.map Model.identityCodec.write))).length ≤ 4130 := by
  obtain ⟨hlen, hids, -⟩ := (Workspace.validIds_iff ids).mp h
  have hitems : ∀ j ∈ ids.map Model.identityCodec.write, (Json.text S.format j).length ≤ 128 := by
    intro j hj
    obtain ⟨id, hid, rfl⟩ := List.mem_map.mp hj
    exact length_identity (hids id hid).1
  have hle := Json.length_text_arr_le S.format hitems
  rw [List.length_map] at hle
  have hmax : ids.length ≤ 32 := hlen
  omega

/-- A valid edit of the tabs is short, whatever is in it. -/
theorem length_change {c : Workspace.Change} (h : c.valid = true) :
    (S.text (workspaceCodec.write (some c))).length ≤ workspaceMaxBytes := by
  unfold Workspace.Change.valid at h
  simp only [Bool.and_eq_true, decide_eq_true_eq] at h
  obtain ⟨⟨⟨⟨⟨-, hop⟩, -⟩, hbase⟩, htabs⟩, hselected⟩ := h
  -- the parts are bounded by the limits of the change
  have hquote := Json.length_quote_le c.operationId
  have hrevision : (Json.decimal c.revision.toNat).length ≤ 21 := by
    refine Json.length_decimal_le (by decide) ?_
    have := c.revision.toNat_lt
    omega
  have hb := length_identities (S := S) hbase
  have ht := length_identities (S := S) htabs
  -- an edit that selects nothing has no third member
  have hrest : (Json.textMoreFields S.format (Fields.pairs ["selected"]
      ((Fields.omitNone "selected" Model.identityCodec).put c.selected))).length ≤ 140 := by
    cases hsel : c.selected with
    | none =>
      show (Json.textMoreFields S.format []).length ≤ 140
      rw [Json.length_textMoreFields_nil]
      omega
    | some id =>
      rw [hsel, Option.all_some, List.contains_iff_mem] at hselected
      obtain ⟨-, hids, -⟩ := (Workspace.validIds_iff _).mp htabs
      have hid := length_identity (S := S) (hids id hselected).1
      show (Json.textMoreFields S.format [("selected", Model.identityCodec.write id)]).length ≤ 140
      rw [Json.length_textMoreFields_cons, Json.length_textMoreFields_nil,
        show (Json.quote "selected").length = 10 by decide]
      omega
  show (Json.text S.format (.obj [("change", .obj (("operation_id", .str c.operationId) ::
    ("revision", .int c.revision.toNat) :: ("base", .arr (c.base.map Model.identityCodec.write)) ::
    ("tabs", .arr (c.tabs.map Model.identityCodec.write)) ::
    Fields.pairs ["selected"] ((Fields.omitNone "selected" Model.identityCodec).put
      c.selected)))])).length
    ≤ 32768
  simp only [Json.length_text_obj_cons, Json.length_textMoreFields_cons,
    Json.length_textMoreFields_nil]
  rw [Json.text, Json.text, show (Json.quote "change").length = 8 by decide,
    show (Json.quote "operation_id").length = 14 by decide,
    show (Json.quote "revision").length = 10 by decide,
    show (Json.quote "base").length = 6 by decide,
    show (Json.quote "tabs").length = 6 by decide]
  omega

end

/-! ### Requests

The preflight and the writer side by side, and the key that passes the one and not the other. -/

section

variable {S : Serde} {r : Request}

/-- What the preflight says of the payload. -/
theorem validateRequest_payload (h : validateRequest r = .ok ()) :
    ∃ payload, r.payload = some payload ∧ payloadLimits payload = .ok () := by
  obtain ⟨op, payload, -, hpayload, -, -, hlimits⟩ := validateRequest_ok h
  exact ⟨payload, hpayload, hlimits⟩

/-- A valid request is encoded without checking it again. -/
theorem requestPayload_eq (h : validateRequest r = .ok ()) :
    requestPayload S r = requestPayloadUnchecked S r := ok_bind h

/-- An edit that passed the preflight is written. -/
theorem requestPayload_workspace {x : WorkspaceRequest}
    (h : payloadLimits (.workspace x) = .ok ()) :
    ∃ raw, (do
      let change ← x.change.mapM workspaceChangeFromProto
      encodeJson S workspaceCodec change (workspaceMaxBytes + 32)) = .ok raw := by
  have hall : (x.change.all fun c => (workspaceChangeFromProto c).isOk) = true := require_ok.mp h
  cases hchange : x.change with
  | none =>
    show ∃ raw, encodeJson S workspaceCodec none (workspaceMaxBytes + 32) = .ok raw
    rw [encode_ok_iff]
    show (Json.text S.format (.obj [("change", .null)])).length ≤ _
    rw [Json.length_text_obj_cons, Json.length_textMoreFields_nil, Json.text]
    decide
  | some c =>
    rw [hchange, Option.all_some] at hall
    cases hc : workspaceChangeFromProto c with
    | error e => rw [hc] at hall; cases hall
    | ok change =>
      have hvalid : change.valid = true := by
        unfold workspaceChangeFromProto at hc
        dsimp only at hc
        split at hc
        · rename_i hv
          cases hc
          exact hv
        · cases hc
      have hmap : (some c).mapM workspaceChangeFromProto = .ok (some change) := by
        show (some <$> workspaceChangeFromProto c) = .ok (some change)
        rw [hc]
        rfl
      rw [ok_bind hmap]
      exact encode_ok_iff.mpr ((length_change hvalid).trans (Nat.le_add_right _ _))

/-- **When the preflight is enough.**  A request that passes the preflight and has no text to
    escape is written as JSON exactly when its texts and the syntax of its payload fit. -/
theorem requestPayload_ok_iff (S : Serde) (r : Request) (hvalid : validateRequest r = .ok ())
    (hplain : ∀ payload ∈ r.payload, ∀ s ∈ payloadTexts payload, Json.unescaped s = true) :
    (∃ raw, requestPayload S r = .ok raw) ↔ r.payload.all payloadFits = true := by
  obtain ⟨payload, hpayload, hlimits⟩ := validateRequest_payload hvalid
  have hplain := hplain payload hpayload
  rw [requestPayload_eq hvalid]
  unfold requestPayloadUnchecked
  rw [hpayload, Option.all_some]
  cases payload with
  | empty x => exact iff_of_true ⟨[], rfl⟩ rfl
  -- the two texts make the length; the limit is the condition itself
  | create x =>
    show (∃ raw, encodeJson S createCodec x actionMax = .ok raw) ↔ _
    have hlen := length_create (S := S) (x := x)
      (fun s hs => hplain s (List.mem_append_left _ (Option.mem_toList.mpr hs)))
      (fun s hs => hplain s (List.mem_append_right _ (Option.mem_toList.mpr hs)))
    rw [encode_ok_iff, hlen]
    exact decide_eq_true_iff.symm
  -- the check of the request bounds the alias, so the body always fits
  | «alias» x =>
    show (∃ raw, encodeJson S aliasCodec x actionMax = .ok raw) ↔ _
    have hlen := length_alias (S := S) (x := x) fun s hs => hplain s (Option.mem_toList.mpr hs)
    have hall : (x.«alias».all fun s => len s ≤ actionMax - 16) = true := require_ok.mp hlimits
    rw [encode_ok_iff, hlen]
    refine iff_of_true ?_ rfl
    cases ha : x.«alias» with
    | none => decide
    | some s =>
      rw [ha, Option.all_some, decide_eq_true_eq] at hall
      show 10 + (len s + 2) ≤ actionMax
      unfold actionMax at *
      omega
  | hidden x =>
    show (∃ raw, encodeJson S hiddenCodec x actionMax = .ok raw) ↔ _
    rw [encode_ok_iff]
    exact iff_of_true ((length_hidden x).trans (by decide)) rfl
  | workspace x => exact iff_of_true (requestPayload_workspace hlimits) rfl
  | providerKey x =>
    show (∃ raw, encodeJson S providerKeyCodec x actionMax = .ok raw) ↔ _
    rw [encode_ok_iff, length_providerKey (hplain _ (by simp [payloadTexts]))
      (hplain _ (by simp [payloadTexts]))]
    exact decide_eq_true_iff.symm
  | providerJob x =>
    show (∃ raw, encodeJson S providerJobCodec x actionMax = .ok raw) ↔ _
    rw [encode_ok_iff, length_providerJob (hplain _ (by simp [payloadTexts]))
      (hplain _ (by simp [payloadTexts])) (hplain _ (by simp [payloadTexts]))]
    exact decide_eq_true_iff.symm

end

namespace PreflightExample

/-- A request to store a key of `n` letters. -/
def storeKey (n : ℕ) : Request :=
  { id := "1", operation := 8, session := none,
    payload := some (.providerKey ⟨"", String.ofList (List.replicate n 'a')⟩) }

/-- The key of the example is so many letters. -/
theorem bytes_key (n : ℕ) : bytes (String.ofList (List.replicate n 'a')) = List.replicate n 97 := by
  rw [bytes_ofList fun c hc => by rw [List.eq_of_mem_replicate hc]; rfl, List.map_replicate]
  rfl

/-- The key of the example is so long. -/
theorem len_key (n : ℕ) : len (String.ofList (List.replicate n 'a')) = n := by
  rw [len, bytes_key, List.length_replicate]

/-- The key of the example needs no escapes. -/
theorem unescaped_storeKey (n : ℕ) :
    ∀ payload ∈ (storeKey n).payload, ∀ s ∈ payloadTexts payload, Json.unescaped s = true := by
  rintro payload ⟨⟩ s hs
  rcases List.mem_cons.mp hs with rfl | hs
  · rfl
  · rw [List.mem_singleton.mp hs, Json.unescaped, bytes_key, List.all_eq_true]
    intro b hb
    rw [List.eq_of_mem_replicate hb]
    rfl

/-- The key of the example is valid up to the limit. -/
theorem validateRequest_storeKey {n : ℕ} (h : n ≤ actionMax) :
    validateRequest (storeKey n) = .ok () := by
  show require (decide (len "" + len (String.ofList (List.replicate n 'a')) ≤ actionMax)) _ = _
  rw [len_key, require_ok, decide_eq_true_eq]
  exact (Nat.zero_add n).trans_le h

/-- The longest key that fits, and the first that does not. -/
theorem requestPayload_storeKey :
    (∃ raw, requestPayload Json.Compact.serde (storeKey 16360) = .ok raw) ∧
      ¬ ∃ raw, requestPayload Json.Compact.serde (storeKey 16361) = .ok raw := by
  have hfits : ∀ n, (storeKey n).payload.all payloadFits = true ↔ n + 24 ≤ actionMax := by
    intro n
    show decide (len "" + len (String.ofList (List.replicate n 'a')) + 24 ≤ actionMax) = true ↔ _
    rw [len_key, decide_eq_true_eq, show len "" = 0 from rfl, Nat.zero_add]
  constructor
  · rw [requestPayload_ok_iff _ _ (validateRequest_storeKey (by decide)) (unescaped_storeKey _),
      hfits]
    decide
  · rw [requestPayload_ok_iff _ _ (validateRequest_storeKey (by decide)) (unescaped_storeKey _),
      hfits]
    decide

/-- The last lengths below the limit are refused all the same. -/
theorem requestPayload_storeKey_error (S : Serde) {n : ℕ} (hn : n ≤ actionMax)
    (hlong : actionMax < n + 24) : requestPayload S (storeKey n) = .error .size := by
  have hplain := unescaped_storeKey n _ rfl
  rw [requestPayload_eq (validateRequest_storeKey hn)]
  show encodeJson S providerKeyCodec ⟨"", String.ofList (List.replicate n 'a')⟩ actionMax = _
  unfold encodeJson
  rw [length_providerKey (hplain _ List.mem_cons_self) (hplain _ (by simp [payloadTexts])), len_key,
    show len "" = 0 from rfl, Nat.zero_add, if_neg (Nat.not_le_of_lt hlong)]

/-- **A key as long as the preflight admits is refused by the writer.**  16384 letters pass
    `validate_request`; with its 24 bytes of syntax the payload does not fit. -/
theorem storeKey_refused :
    ∃ r, validateRequest r = .ok () ∧
      (∀ payload ∈ r.payload, ∀ s ∈ payloadTexts payload, Json.unescaped s = true) ∧
      ∀ S, requestPayload S r = .error .size :=
  ⟨storeKey actionMax, validateRequest_storeKey (Nat.le_refl _), unescaped_storeKey _,
    fun S => requestPayload_storeKey_error S (Nat.le_refl _) (by decide)⟩

end PreflightExample

end Hmux.Protocol
