import Hmux.Lib.Json.Spelled
import Hmux.Protocol.LegacyTexts

namespace Hmux.Protocol

open Lib Pb Json

/-!
# The size of a frame

The text of a frame is tight, and free when the texts of its body are.  So what the writer makes of
it is as long as the text exactly when the texts are free, and longer otherwise.

* `spelled_frame` — the text of a frame;
* `frameOf_fits` — **the frame of a body** is free when the texts of the body are;
* `encode_length` — what the writer makes of a frame.
-/

/-! ### The fields of a frame

A field is a key and a value, and the text of a frame is what is left of its fields. -/

namespace Wire

theorem moreFields_append (f g : List (String × List UInt8)) :
    moreFields (f ++ g) = moreFields f ++ moreFields g := by
  induction f with
  | nil => rfl
  | cons e f ih =>
    obtain ⟨key, raw⟩ := e
    rw [List.cons_append, moreFields, moreFields, ih]
    simp

theorem joinFields_append {f : List (String × List UInt8)} (hf : f ≠ [])
    (g : List (String × List UInt8)) : joinFields (f ++ g) = joinFields f ++ moreFields g := by
  cases f with
  | nil => exact absurd rfl hf
  | cons e f =>
    obtain ⟨key, raw⟩ := e
    rw [List.cons_append, joinFields, joinFields, moreFields_append]
    simp

/-- One more field. -/
theorem spelled_field {key : String} {raw : List UInt8} {b : Bool} (hkey : htmlFree key = true)
    (h : Spelled raw b) : Spelled (moreFields [(key, raw)]) b := by
  rw [moreFields, moreFields, List.append_nil]
  have hfield := spelled_comma.append ((spelled_key key).append h)
  rw [List.append_assoc, hkey, Bool.true_and, Bool.true_and] at hfield
  exact hfield

theorem spelled_optionalField {key : String} {skip : Bool} {raw : List UInt8} {b : Bool}
    (hkey : htmlFree key = true) (h : skip = false → Spelled raw b)
    (hskip : skip = true → b = true) :
    Spelled (moreFields (optionalField key skip raw)) b := by
  unfold optionalField
  cases skip with
  | true =>
    rw [if_pos rfl, hskip rfl]
    exact .nil
  | false =>
    rw [if_neg Bool.false_ne_true]
    exact spelled_field hkey (h rfl)

/-- The header is free. -/
def UploadHeader.free (h : UploadHeader) : Bool :=
  htmlFree h.requestId && htmlFree h.session.id &&
    h.files.all fun files => files.all fun f => htmlFree f.extension

theorem header_free {h : UploadHeader} : uploadHeaderCodec.Free h ↔ h.free = true := by
  have hfile : ∀ f : FileHeader, fileHeaderCodec.Free f ↔ htmlFree f.extension = true := by
    intro f
    unfold fileHeaderCodec
    rw [Codec.object_free rfl]
    simp
  unfold uploadHeaderCodec UploadHeader.free
  rw [Codec.object_free rfl]
  cases hfiles : h.files with
  | none => simp [hfiles]
  | some files => simp [hfile, hfiles, and_assoc]

/-- The frame is free; `b` tells it of its payload. -/
def Message.free (m : Message) (b : Bool) : Bool :=
  htmlFree m.kind && htmlFree m.id && htmlFree m.operation && htmlFree m.session.id && b &&
    htmlFree m.error && m.header.all UploadHeader.free && m.capabilities.all htmlFree

section

variable {S : Serde}

/-- What a codec writes. -/
theorem spelled_write {α : Type} (hformat : WordFormat S.format) {c : Codec α} {a : α} {b : Bool}
    (h : c.Free a ↔ b = true) : Spelled (S.text (c.write a)) b := by
  have htext : Spelled (S.text (c.write a)) (Json.free (c.write a)) :=
    spelled_text hformat (c.write a)
  exact htext.of_eq (Bool.eq_iff_iff.mpr h)

theorem base64_free (data : List UInt8) :
    htmlFree (String.ofList (Base64.encode Base64.standard true data)) = true := by
  have hdigit : ∀ n ∈ List.range 64, Base64.digit Base64.standard n ∉ htmlChars := by
    apply forall_of_all
    decide
  rw [htmlFree_iff, String.toList_ofList]
  intro c hc
  rcases Base64.mem_encode hc with rfl | ⟨n, rfl⟩
  · decide
  · by_cases hn : n < 64
    · exact hdigit n (List.mem_range.mpr hn)
    · unfold Base64.digit
      rw [if_neg (by omega), if_neg (by omega), if_neg (by omega), if_neg (by omega)]
      decide

theorem spelled_textField {key s : String} (hkey : htmlFree key = true) :
    Spelled (moreFields (optionalField key (s == "") (Json.quote s))) (htmlFree s) := by
  apply spelled_optionalField hkey (fun _ => spelled_quote s)
  intro hs
  rw [beq_iff_eq.mp hs, htmlFree_empty]

theorem spelled_numberField {key : String} {skip : Bool} {n : ℤ} (hkey : htmlFree key = true) :
    Spelled (moreFields (optionalField key skip (Json.decimal n))) true :=
  spelled_optionalField hkey (fun _ => spelled_decimal n) fun _ => rfl

/-- The text of a frame, field by field. -/
theorem Message.text_eq (m : Message) : m.text S = 123 ::
    (joinFields [("type", Json.quote m.kind)] ++
      moreFields (optionalField "id" (m.id == "") (Json.quote m.id)) ++
      moreFields (optionalField "operation" (m.operation == "") (Json.quote m.operation)) ++
      moreFields [("session", S.text (Model.identityCodec.write m.session))] ++
      moreFields (optionalField "payload" m.payload.isNone (m.payload.getD [])) ++
      moreFields (optionalField "data" m.data.isEmpty
        (Json.quote (String.ofList (Base64.encode Base64.standard true m.data)))) ++
      moreFields (optionalField "cols" (m.cols == 0) (Json.decimal m.cols.toNat)) ++
      moreFields (optionalField "rows" (m.rows == 0) (Json.decimal m.rows.toNat)) ++
      moreFields (optionalField "error" (m.error == "") (Json.quote m.error)) ++
      moreFields (optionalField "header" m.header.isNone
        (S.text (uploadHeaderCodec.option.write m.header))) ++
      moreFields (optionalField "received" (m.received == 0) (Json.decimal m.received.toInt)) ++
      moreFields (optionalField "capabilities" m.capabilities.isEmpty
        (S.text (Codec.string.list.write m.capabilities))) ++ [125]) := by
  unfold Message.text Message.fields
  simp only [List.append_assoc]
  rw [joinFields_append (List.cons_ne_nil _ _)]
  simp only [moreFields_append, List.append_assoc]

/-- **The text of a frame.** -/
theorem spelled_frame (hformat : WordFormat S.format) {m : Message} {b : Bool}
    (hpayload : ∀ raw ∈ m.payload, Spelled raw b) (hnone : m.payload = none → b = true) :
    Spelled (m.text S) (m.free b) := by
  -- the fields of a frame, in their order
  have hkind : Spelled (joinFields [("type", Json.quote m.kind)]) (htmlFree m.kind) := by
    have hfirst := (spelled_key "type").append (spelled_quote m.kind)
    rw [show htmlFree "type" = true by decide, Bool.true_and, List.append_assoc] at hfirst
    rw [joinFields, moreFields, List.append_nil]
    exact hfirst
  have hsession : Spelled (moreFields [("session", S.text (Model.identityCodec.write m.session))])
      (htmlFree m.session.id) :=
    spelled_field (by decide) (spelled_write hformat identity_free)
  have hpayload' : Spelled (moreFields (optionalField "payload" m.payload.isNone
      (m.payload.getD []))) b := by
    apply spelled_optionalField (by decide)
    · intro hsome
      obtain ⟨raw, hraw⟩ := Option.isSome_iff_exists.mp (Option.isNone_eq_false_iff.mp hsome)
      rw [hraw]
      exact hpayload raw hraw
    · exact fun hno => hnone (Option.isNone_iff_eq_none.mp hno)
  have hdata : Spelled (moreFields (optionalField "data" m.data.isEmpty
      (Json.quote (String.ofList (Base64.encode Base64.standard true m.data))))) true :=
    spelled_optionalField (by decide) (fun _ => (spelled_quote _).of_eq (base64_free m.data))
      fun _ => rfl
  have hheader : Spelled (moreFields (optionalField "header" m.header.isNone
      (S.text (uploadHeaderCodec.option.write m.header)))) (m.header.all UploadHeader.free) := by
    apply spelled_optionalField (by decide)
    · intro _
      apply spelled_write hformat
      rw [Codec.option_free]
      cases m.header with
      | none => simp
      | some h => simp [header_free]
    · intro hno
      rw [Option.isNone_iff_eq_none.mp hno]
      rfl
  have hcaps : Spelled (moreFields (optionalField "capabilities" m.capabilities.isEmpty
      (S.text (Codec.string.list.write m.capabilities)))) (m.capabilities.all htmlFree) := by
    apply spelled_optionalField (by decide)
    · intro _
      apply spelled_write hformat
      rw [Codec.list_free, List.all_eq_true]
      simp only [Codec.string_free]
    · intro hno
      rw [List.isEmpty_iff.mp hno]
      rfl
  have hid := spelled_textField (s := m.id) (show htmlFree "id" = true by decide)
  have hoperation := spelled_textField (s := m.operation)
    (show htmlFree "operation" = true by decide)
  have herror := spelled_textField (s := m.error) (show htmlFree "error" = true by decide)
  have hcols : Spelled (moreFields (optionalField "cols" (m.cols == 0)
      (Json.decimal m.cols.toNat))) true := spelled_numberField (by decide)
  have hrows : Spelled (moreFields (optionalField "rows" (m.rows == 0)
      (Json.decimal m.rows.toNat))) true := spelled_numberField (by decide)
  have hreceived : Spelled (moreFields (optionalField "received" (m.received == 0)
      (Json.decimal m.received.toInt))) true := spelled_numberField (by decide)
  have hall := ((((((((((hkind.append hid).append hoperation).append hsession).append
    hpayload').append hdata).append hcols).append hrows).append herror).append hheader).append
    hreceived).append hcaps
  -- one after the other they are the text of the frame
  rw [Message.text_eq]
  refine hall.braced.of_eq ?_
  unfold Message.free
  simp only [Bool.and_true]

end

end Wire

/-! ### The payload of a frame

A payload was written by the compact writer, so it is tight, and it is free when the texts it was
made of are. -/

section

variable {S : Serde} {L : Layout} {M : Snapshots.ModelName → ℕ}
  {rfc3339 : String → Option (DateTime × ℤ)}

/-- The value is a list or an object. -/
def Enclosed : Json → Prop
  | .arr _ | .obj _ => True
  | _ => False

/-- A text that ends where its value does is not trimmed. -/
theorem trimBlanks_text {j : Json} (h : Enclosed j) : trimBlanks (S.text j) = S.text j := by
  have htrim : ∀ (first last : UInt8) (mid : List UInt8), Serde.isBlank first = false →
      Serde.isBlank last = false → trimBlanks (first :: (mid ++ [last])) = first ::
        (mid ++ [last]) := by
    intro first last mid hfirst hlast
    have hreverse : (first :: (mid ++ [last])).reverse = last :: (mid.reverse ++ [first]) := by simp
    unfold trimBlanks
    rw [List.dropWhile_cons_of_neg (by rw [hfirst]; exact Bool.false_ne_true), hreverse,
      List.dropWhile_cons_of_neg (by rw [hlast]; exact Bool.false_ne_true), ← hreverse,
      List.reverse_reverse]
  unfold Serde.text
  cases j with
  | arr items =>
    rw [Json.text]
    exact htrim 91 93 _ (by decide) (by decide)
  | obj fields =>
    rw [Json.text]
    exact htrim 123 125 _ (by decide) (by decide)
  | _ => exact h.elim

/-- What `RawValue::from_string` makes of such a text. -/
theorem rawValue_text {j : Json} (h : Enclosed j) {raw : List UInt8}
    (hok : rawValue S (S.text j) = .ok raw) : raw = S.text j := by
  unfold rawValue at hok
  split at hok
  · rw [trimBlanks_text h] at hok
    cases hok
    rfl
  · cases hok

/-- What becomes of the text of such a value. -/
theorem oldPayload_text {j : Json} (h : Enclosed j) {payload : Option (List UInt8)}
    (hok : oldPayload S (S.text j) = .ok payload) : payload = some (S.text j) := by
  have hne : S.text j ≠ [] := by
    unfold Serde.text
    cases j with
    | arr items => exact text_arr_ne_nil _ items
    | obj fields => exact text_obj_ne_nil _ fields
    | _ => exact h.elim
  unfold oldPayload at hok
  rw [if_neg hne] at hok
  cases hutf : utf8 (S.text j) with
  | none =>
    rw [hutf] at hok
    cases hok
  | some s =>
    rw [hutf] at hok
    dsimp only at hok
    cases hraw : rawValue S (S.text j) with
    | error e =>
      rw [hraw] at hok
      cases hok
    | ok raw =>
      rw [hraw] at hok
      cases hok
      rw [rawValue_text h hraw]

/-- What `encode` of an action returns. -/
theorem encodeJson_ok {α : Type} {c : Codec α} {v : α} {max : ℕ} {raw : List UInt8}
    (h : encodeJson S c v max = .ok raw) : raw = S.text (c.write v) := by
  unfold encodeJson at h
  split at h
  · cases h
    rfl
  · cases h

/-- **The payload of a response** is empty, or the text of a value that is free when the texts of
the result are. -/
theorem responsePayload_text {v : Response} {raw : List UInt8}
    (h : responsePayload L S v = .ok raw) :
    (v.result = none ∧ raw = []) ∨ ∃ j, raw = S.text j ∧ Enclosed j ∧
      (free j = true ↔ AllFree (v.result.toList.flatMap resultTexts)) := by
  obtain ⟨-, -, h⟩ := bind_ok h
  have hone : ∀ x, v.result = some x →
      v.result.toList.flatMap resultTexts = resultTexts x := by
    intro x hx
    rw [hx]
    exact List.flatMap_singleton _ _
  unfold responsePayloadUnchecked at h
  cases hresult : v.result with
  | none =>
    rw [hresult] at h
    cases h
    exact .inl ⟨rfl, rfl⟩
  | some result =>
    right
    rw [← hresult, hone result hresult]
    rw [hresult] at h
    cases result with
    | profiles x => exact ⟨_, encodeJson_ok h, trivial, profiles_free x⟩
    | created x => exact ⟨_, encodeJson_ok h, trivial, created_free x⟩
    | ok x =>
      cases h
      exact ⟨_, rfl, trivial, by simp [resultTexts, free, freeFields]; decide⟩
    | conversation x => exact ⟨_, encodeJson_ok h, trivial, conversation_free x⟩
    | workspace x =>
      obtain ⟨snapshot, hsnapshot, h⟩ := bind_ok h
      exact ⟨_, encodeJson_ok h, trivial, workspace_free hsnapshot⟩
    | providers x => exact ⟨_, encodeJson_ok h, trivial, providers_free x⟩
    | staged x =>
      obtain ⟨stage, hstage, h⟩ := bind_ok h
      exact ⟨_, encodeJson_ok h, trivial, stage_free hstage⟩

theorem kindOf_free (body : EnvelopeBody) : htmlFree (kindOf body) = true := by
  cases body <;> (simp only [kindOf]; decide)

/-- The frame is tight, and free when the texts are. -/
structure FrameFits (S : Serde) (m : Wire.Message) (texts : List String) : Prop where
  spelled : ∃ b, Spelled (m.text S) b ∧ (b = true ↔ AllFree texts)

/-- A frame without a payload. -/
theorem fits_plain (hformat : WordFormat S.format) {m : Wire.Message} {texts : List String}
    (hnone : m.payload = none) (h : m.free true = true ↔ AllFree texts) : FrameFits S m texts := by
  refine ⟨m.free true, Wire.spelled_frame hformat ?_ fun _ => rfl, h⟩
  intro raw hraw
  rw [hnone] at hraw
  cases hraw

/-- A frame whose payload is the text of a value. -/
theorem fits_payload (hformat : WordFormat S.format) {m : Wire.Message} {texts : List String}
    {j : Json} (hsome : m.payload = some (S.text j)) (h : m.free (free j) = true ↔ AllFree texts) :
    FrameFits S m texts := by
  refine ⟨m.free (free j), Wire.spelled_frame hformat ?_ ?_, h⟩
  · intro raw hraw
    rw [hsome] at hraw
    cases hraw
    exact spelled_text hformat j
  · intro hnone
    rw [hsome] at hnone
    cases hnone

/-- The frame of a response. -/
theorem responseFrame_fits (hformat : WordFormat S.format) {kind : String} {v : Response}
    {m : Wire.Message} (hkind : htmlFree kind = true) (h : responseFrame S L kind v = .ok m) :
    FrameFits S m (responseTexts v) := by
  obtain ⟨raw, hraw, h⟩ := bind_ok h
  obtain ⟨payload, hpayload, h⟩ := bind_ok h
  cases h
  rcases responsePayload_text hraw with ⟨hnone, rfl⟩ | ⟨j, rfl, henclosed, hfree⟩
  · cases hpayload
    apply fits_plain hformat rfl
    simp [Wire.Message.free, Wire.Message.default, responseTexts, hkind, hnone]
  · apply fits_payload hformat (oldPayload_text henclosed hpayload)
    have hframe : ({ Wire.Message.default with
        kind, payload, id := v.id, error := v.error } : Wire.Message).free (free j) =
          (htmlFree v.id && free j && htmlFree v.error) := by
      simp [Wire.Message.free, Wire.Message.default, hkind]
    rw [responseTexts, allFree_cons, allFree_cons, ← hfree]
    refine (iff_of_eq (congrArg (· = true) hframe)).trans ?_
    rw [Bool.and_eq_true, Bool.and_eq_true, and_assoc]
    exact and_congr_right fun _ => and_comm

/-- What `usage_payload` returns. -/
theorem usagePayload_ok {v : UsageSnapshot} {raw : List UInt8}
    (h : usagePayload S rfc3339 v = .ok raw) : ∃ out,
      Snapshots.usageFromProto (Snapshots.parseTime rfc3339) v = .ok out ∧
        raw = S.text (out.json S.ofInt) := by
  unfold usagePayload at h
  split at h
  · cases h
  · next out hout =>
    unfold Usage.encode at h
    cases hvalid : Usage.validate (Snapshots.parseTime rfc3339) out with
    | error e =>
      rw [hvalid] at h
      cases h
    | ok u =>
      rw [hvalid] at h
      dsimp only at h
      by_cases hlong : Usage.maxSnapshotBytes < (S.text (out.json S.ofInt)).length
      · rw [if_pos hlong] at h
        cases h
      · rw [if_neg hlong] at h
        cases h
        exact ⟨out, hout, rfl⟩

/-- **The frame of a body** that goes to the gateway is tight, and free when the texts of the body
are. -/
theorem frameOf_fits (hformat : WordFormat S.format) {body : EnvelopeBody} {m : Wire.Message}
    (hdirection : toGateway body = true) (h : frameOf S L M rfc3339 body = .ok m) :
    FrameFits S m (bodyTexts rfc3339 body) := by
  have hkind := kindOf_free body
  cases body with
  -- frames without a payload
  | hello v =>
    cases h
    apply fits_plain hformat rfl
    simp [Wire.Message.free, Wire.Message.default, bodyTexts, hkind]
  | response v => exact responseFrame_fits hformat hkind h
  | terminalExit v => exact responseFrame_fits hformat hkind h
  | refreshResult v => exact responseFrame_fits hformat hkind h
  | uploadComplete v => exact responseFrame_fits hformat hkind h
  | uploadError v => exact responseFrame_fits hformat hkind h
  | terminalOutput v =>
    cases h
    apply fits_plain hformat rfl
    simp [Wire.Message.free, Wire.Message.default, bodyTexts, hkind]
  | uploadReady v =>
    cases h
    apply fits_plain hformat rfl
    simp [Wire.Message.free, Wire.Message.default, bodyTexts, hkind]
  | uploadAck v =>
    cases h
    apply fits_plain hformat rfl
    simp [Wire.Message.free, Wire.Message.default, bodyTexts, hkind]
  | usageUnavailable v =>
    cases h
    apply fits_plain hformat rfl
    simp [Wire.Message.free, Wire.Message.default, bodyTexts, hkind]
  -- frames whose payload is the JSON of the model
  | catalog v =>
    obtain ⟨raw, hraw, h⟩ := bind_ok h
    obtain ⟨payload, hpayload, h⟩ := bind_ok h
    cases h
    unfold catalogPayload at hraw
    split at hraw
    · cases hraw
    · next out hout =>
      have hfree := @catalog_free _ S.ofInt _ _ (Snapshots.catalogFromProto_ok hout).1
      have henclosed : Enclosed ((Model.Catalog.codec rfc3339 S.ofInt).write out) := trivial
      rw [encodeJson_ok hraw] at hpayload
      apply fits_payload hformat (oldPayload_text henclosed hpayload)
      rw [bodyTexts, ← hfree]
      simp [Wire.Message.free, Wire.Message.default, hkind, Codec.Free]
  | usage v =>
    obtain ⟨raw, hraw, h⟩ := bind_ok h
    obtain ⟨payload, hpayload, h⟩ := bind_ok h
    cases h
    obtain ⟨out, hout, rfl⟩ := usagePayload_ok hraw
    have hfree := @usage_free _ S.ofInt _ _ hout
    have henclosed : Enclosed (out.json S.ofInt) := by
      rw [Usage.Snapshot.json_eq]
      exact trivial
    apply fits_payload hformat (oldPayload_text henclosed hpayload)
    rw [bodyTexts, ← hfree]
    simp [Wire.Message.free, Wire.Message.default, hkind]
  | taskComplete v =>
    obtain ⟨payload, hpayload, h⟩ := bind_ok h
    cases h
    have henclosed : Enclosed (.obj [("completed_at", .str v.completedAt)]) := trivial
    have hkey : htmlFree "completed_at" = true := by decide
    have hsession : htmlFree (oldSession v.session).id = true ↔
        ∀ s ∈ v.session, htmlFree s.id = true := by
      unfold oldSession
      cases v.session with
      | none => simp
      | some s => simp [fromSession]
    -- the payload is written by hand
    apply fits_payload hformat (congrArg some (rawValue_text henclosed hpayload))
    rw [bodyTexts, allFree_cons, allFree_cons, allFree_map]
    simp only [Wire.Message.free, Wire.Message.default, hkind, free, freeFields, hkey,
      Bool.and_true, Bool.true_and, Bool.and_eq_true, htmlFree_empty, Option.all_none, List.all_nil,
      hsession, Option.mem_toList, and_assoc]
    exact and_congr_right fun _ => and_comm
  -- the gateway sends these
  | _ => cases hdirection

/-! ### What the writer makes of a frame

A special character takes six bytes where the text had one. -/

/-- **What is written** is a text, at least as long as the text of the frame, and as long when the
texts are free. -/
theorem encode_length {split : List UInt8 → List (List UInt8)}
    (hsplit : ∀ raw, (split raw).flatten = raw) {m : Wire.Message} {texts : List String}
    (hfits : FrameFits S m texts) {raw : List UInt8} (h : m.encode S split = .ok raw) :
    (m.text S).length ≤ raw.length ∧ raw.length ≤ maxMessage ∧ (utf8 raw).isSome ∧
      ((m.text S).length = raw.length ↔ AllFree texts) := by
  obtain ⟨b, hspelled, hb⟩ := hfits.spelled
  obtain ⟨l, htext, htight, hle, hlength⟩ := hspelled.length
  obtain ⟨-, -, h⟩ := bind_ok h
  split at h
  · cases h
  · obtain ⟨hfits, hlong⟩ := stream_pass l ((hsplit (m.text S)).trans htext.symm)
    rw [htight] at hfits hlong
    by_cases hmax : (textBytes (htmlSafe l)).length ≤ maxMessage
    · rw [hfits hmax] at h
      cases h
      refine ⟨hle, hmax, ?_, ?_⟩
      · rw [← bytes_ofText, utf8_bytes]
        rfl
      · rw [eq_comm, ← hb]
        exact hlength
    · obtain ⟨w, hw, -⟩ := hlong (Nat.lt_of_not_le hmax)
      rw [hw] at h
      cases h

/-- A frame that is small enough is written. -/
theorem encode_small {split : List UInt8 → List (List UInt8)}
    (hsplit : ∀ raw, (split raw).flatten = raw) {m : Wire.Message} {texts : List String}
    (hfits : FrameFits S m texts) (hvalid : m.validateFields = .ok ())
    (hpayload : (m.payload.any fun raw => maxMessage < raw.length) = false)
    (hsmall : 6 * (m.text S).length ≤ maxMessage) : ∃ raw, m.encode S split = .ok raw := by
  obtain ⟨b, hspelled, -⟩ := hfits.spelled
  obtain ⟨l, htext, htight, -, -⟩ := hspelled.length
  obtain ⟨hfits, -⟩ := stream_pass l ((hsplit (m.text S)).trans htext.symm)
  have hmax := length_htmlSafe_max l
  rw [htext] at hmax
  rw [htight] at hfits
  refine ⟨textBytes (htmlSafe l), ?_⟩
  unfold Wire.Message.encode
  rw [hvalid]
  show (if _ then _ else _) = _
  rw [if_neg (by rw [hpayload]; exact Bool.false_ne_true), hfits (Nat.le_trans hmax hsmall)]

end

end Hmux.Protocol
