import Hmux.Home.Peer
import Hmux.Protocol.LegacySize
import Hmux.Transport.Queue

namespace Hmux.Home

open Lib Pb Protocol Transport

/-!
# Sending to a peer of the first protocol

`peer::send` measures the text of a frame before it reserves room in the queue, and encodes the
frame afterwards.  The writer of the frame also escapes the special characters, which the count does
not know of, so a frame with such a character is refused after its room was reserved.

* `sendJsonV1` — the code, up to the receipt;
* `sent_iff` — **a frame is sent exactly when its texts have no special character**;
* `accepted_iff` — so `send` keeps its word for those frames and for no other.
-/

/-! ### The code

The frame is written twice: into a counter, which gives the number of bytes to reserve, and into
the buffer that is sent. -/

/-- `Count::write`.  The sum is far below `usize::MAX` before it is compared. -/
def Count.write (count : ℕ) (bytes : List UInt8) : Option ℕ :=
  if count + bytes.length ≤ maxMessage then some (count + bytes.length) else none

/-- `to_writer` into a `Count`. -/
def countOf (chunks : List (List UInt8)) : Option ℕ := chunks.foldlM Count.write 0

section

variable (S : Serde) (split : List UInt8 → List (List UInt8)) (L : Layout)
  (M : Snapshots.ModelName → ℕ) (rfc3339 : String → Option (DateTime × ℤ))

/-- `send` for `JsonV1`, up to the wait for the receipt: `reserve` finds room at once, or fails. -/
def sendJsonV1 (w : Link) (body : EnvelopeBody) (cancel : ℕ) : Except Error Unit × Link :=
  match toJson S L M rfc3339 ⟨version, some body⟩ .toGateway with
  | .error _ => (.error .encoding, w)
  | .ok message =>
    match countOf (split (message.text S)) with
    | none => (.error .encoding, w)
    | some count =>
      match w.tryReserve count with
      | .error _ => (.error .transport, w)
      | .ok (reserved, w) =>
        match message.encode S split with
        | .error _ => (.error .encoding, w.giveBack 1 reserved.bytes)
        | .ok raw =>
          if raw.length ≠ count then (.error .encoding, w.giveBack 1 reserved.bytes)
          else
            match w.submitInner reserved raw cancel true with
            | (.error _, w) => (.error .transport, w)
            | (.ok (), w) => (.ok (), w)

end

/-! ### Counting

The counter gets the text in pieces and adds up their lengths. -/

theorem foldlM_count {chunks : List (List UInt8)} {start : ℕ}
    (h : start + chunks.flatten.length ≤ maxMessage) :
    chunks.foldlM Count.write start = some (start + chunks.flatten.length) := by
  induction chunks generalizing start with
  | nil => rfl
  | cons bytes chunks ih =>
    rw [List.flatten_cons, List.length_append] at h ⊢
    rw [List.foldlM_cons, Count.write, if_pos (by omega)]
    show chunks.foldlM Count.write (start + bytes.length) = _
    rw [ih (by omega), Nat.add_assoc]

/-- The count is the length, where that is not too large. -/
theorem countOf_flatten {chunks : List (List UInt8)} (h : chunks.flatten.length ≤ maxMessage) :
    countOf chunks = some chunks.flatten.length := by
  have hcount : chunks.foldlM Count.write 0 = some (0 + chunks.flatten.length) :=
    foldlM_count (by rwa [Nat.zero_add])
  rwa [Nat.zero_add] at hcount

/-! ### The queue

The reserved room is that of the count, so a frame of another length is refused before it is
queued, and its room is given back. -/

/-- The transport is open and has room for a frame of `size` bytes. -/
structure HasRoom (w : Link) (cancel size : ℕ) : Prop where
  running : w.stopped = false
  wanted : cancel ∉ w.cancelled
  protocol : w.protocol = .jsonV1
  slot : 1 ≤ w.slots.available
  bytes : size ≤ w.bytes.available
  limit : size ≤ w.byteLimit
  opened : w.queue.closed = false
  queue : w.queue.queue.length < w.queue.capacity

/-- The frame is in the queue, and its job holds exactly its bytes. -/
def Submitted (w w' : Link) (cancel : ℕ) (raw : List UInt8) : Prop :=
  ∃ text job, Hmux.bytes text = raw ∧ job.message = .text text ∧ job.bytes = raw.length ∧
    job.cancelled = some cancel ∧ job.reply = true ∧ w'.accepted = w.accepted ++ [job] ∧
    w'.queue.queue = w.queue.queue ++ [job]

theorem tryReserve_room {w : Link} {cancel size count : ℕ} (h : HasRoom w cancel size)
    (hpos : 0 < count) (hle : count ≤ size) :
    w.tryReserve count = .ok ({ bytes := count, admitted := w.clock },
      { w with
        slots := ⟨w.slots.available - 1⟩
        bytes := ⟨w.bytes.available - count⟩ }) := by
  have hlimit := h.limit
  have hbytes := h.bytes
  unfold Link.tryReserve
  rw [h.running, if_neg Bool.false_ne_true, if_neg (by omega)]
  unfold Semaphore.tryAcquire
  rw [if_pos h.slot]
  dsimp only
  rw [if_pos (Nat.le_trans hle hbytes)]

/-- A job that passes its check and finds the channel open enters it. -/
theorem enqueue_ok {w : Link} {r : Reservation} {message : Transport.Message} {size : ℕ}
    {cancelled : Option ℕ} {reply : Bool} (hcheck : w.check r size cancelled = .ok ())
    (hopen : w.queue.closed = false) (hroom : w.queue.queue.length < w.queue.capacity) :
    ∃ w' job, w.enqueue r message size cancelled reply = (.ok (), w') ∧ job.message = message ∧
      job.bytes = r.bytes - (r.bytes - size) ∧ job.cancelled = cancelled ∧ job.reply = reply ∧
      w'.accepted = w.accepted ++ [job] ∧ w'.queue.queue = w.queue.queue ++ [job] := by
  have hsend : ∀ job : Transport.Job,
      w.queue.trySend job = some { w.queue with queue := w.queue.queue ++ [job] } :=
    fun job => Channel.trySend_eq_some.mpr ⟨hopen, hroom, rfl⟩
  unfold Link.enqueue
  rw [hcheck]
  dsimp only [Link.giveBack]
  rw [hsend]
  exact ⟨_, _, rfl, rfl, rfl, rfl, rfl, rfl, rfl⟩

/-- The frame whose room was just reserved is taken. -/
theorem submitInner_room {w w₀ : Link} {cancel : ℕ} {raw : List UInt8} {text : String}
    (h : HasRoom w cancel raw.length) (hpos : 0 < raw.length) (htext : utf8 raw = some text)
    {slots bytes : Semaphore} (hw : w₀ = { w with slots, bytes }) :
    ∃ w', w₀.submitInner { bytes := raw.length, admitted := w.clock } raw cancel true =
      (.ok (), w') ∧ Submitted w w' cancel raw := by
  have hcheck : w₀.check { bytes := raw.length, admitted := w.clock } raw.length (some cancel) =
      .ok () := by
    subst hw
    have hstopped : ¬ w.stopped = true := by rw [h.running]; exact Bool.false_ne_true
    have hcancel : ¬ ({ w with slots, bytes } : Link).isCancelled (some cancel) = true := by
      unfold Link.isCancelled
      simpa using h.wanted
    have hearly : ¬ queueDeadline ≤ w.clock - w.clock := by rw [Nat.sub_self]; decide
    unfold Link.check
    refine (if_neg hstopped).trans ((if_neg hcancel).trans ((if_neg hearly).trans (if_neg ?_)))
    dsimp only
    omega
  have hprotocol : w₀.protocol = .jsonV1 := by rw [hw]; exact h.protocol
  have hopened : w₀.queue.closed = false := by rw [hw]; exact h.opened
  have hqueue : w₀.queue.queue.length < w₀.queue.capacity := by rw [hw]; exact h.queue
  have haccepted : w₀.accepted = w.accepted := by rw [hw]
  have hqueued : w₀.queue = w.queue := by rw [hw]
  obtain ⟨w', job, henqueue, hmessage, hbytes, hcancelled, hreply, hin, hlast⟩ :=
    @enqueue_ok w₀ _ (.text text) _ _ true hcheck hopened hqueue
  refine ⟨w', ?_, text, job, utf8_eq_some.mp htext, hmessage, ?_, hcancelled, hreply, ?_, ?_⟩
  · unfold Link.submitInner Link.submitData
    rw [hcheck, hprotocol, htext]
    exact henqueue
  · rw [hbytes, Nat.sub_self, Nat.sub_zero]
  · rw [hin, haccepted]
  · rw [hlast, hqueued]

section

variable {S : Serde} {split : List UInt8 → List (List UInt8)} {L : Layout}
  {M : Snapshots.ModelName → ℕ} {rfc3339 : String → Option (DateTime × ℤ)} {body : EnvelopeBody}
  {m : Wire.Message} {raw : List UInt8} {w : Link} {cancel : ℕ}

/-- A body that goes to the gateway. -/
theorem toJson_ok (h : toJson S L M rfc3339 ⟨version, some body⟩ .toGateway = .ok m) :
    toGateway body = true ∧ frameOf S L M rfc3339 body = .ok m := by
  obtain ⟨u, hvalid, h⟩ := bind_ok h
  obtain ⟨body', hbody, h⟩ := bind_ok h
  cases hbody
  refine ⟨?_, h⟩
  unfold validate at hvalid
  rw [if_neg (fun hne => hne rfl)] at hvalid
  dsimp only at hvalid
  split at hvalid
  · cases hvalid
  · next hdirection => simpa using hdirection

/-- What `send` does with a frame that can be encoded. -/
theorem sendJsonV1_eq (hformat : Json.WordFormat S.format)
    (hsplit : ∀ raw, (split raw).flatten = raw)
    (hm : toJson S L M rfc3339 ⟨version, some body⟩ .toGateway = .ok m)
    (hraw : m.encode S split = .ok raw) (hroom : HasRoom w cancel raw.length) :
    countOf (split (m.text S)) = some (m.text S).length ∧
      ((m.text S).length = raw.length ↔ AllFree (bodyTexts rfc3339 body)) ∧
      ((m.text S).length = raw.length → ∃ w', sendJsonV1 S split L M rfc3339 w body cancel =
        (.ok (), w') ∧ Submitted w w' cancel raw) ∧
      ((m.text S).length ≠ raw.length → (sendJsonV1 S split L M rfc3339 w body cancel).1 =
        .error .encoding ∧
        (sendJsonV1 S split L M rfc3339 w body cancel).2.accepted = w.accepted) := by
  obtain ⟨hdirection, hframe⟩ := toJson_ok hm
  have hfits := frameOf_fits hformat hdirection hframe
  obtain ⟨hle, hmax, htext, hlength⟩ := encode_length hsplit hfits hraw
  -- what is counted is the text before its escapes, what is sent is the text after them
  obtain ⟨text, htext⟩ := Option.isSome_iff_exists.mp htext
  have hflat := hsplit (m.text S)
  have hcount : countOf (split (m.text S)) = some (m.text S).length := by
    rw [countOf_flatten (by rw [hflat]; omega), hflat]
  have hpos : 0 < (m.text S).length := List.length_pos_iff.mpr (List.cons_ne_nil _ _)
  have hreserve := tryReserve_room hroom hpos hle
  refine ⟨hcount, hlength, ?_, ?_⟩
  · intro hsame
    obtain ⟨w', hw', hsubmitted⟩ := submitInner_room hroom (by omega) htext rfl
    refine ⟨w', ?_, hsubmitted⟩
    unfold sendJsonV1
    rw [hm]
    dsimp only
    rw [hcount]
    dsimp only
    rw [hreserve]
    dsimp only
    rw [hraw]
    dsimp only
    rw [if_neg (not_not_intro hsame.symm), hsame, hw']
  · intro hdiffer
    -- what was reserved for the counted length goes back
    have hsend : sendJsonV1 S split L M rfc3339 w body cancel = (.error .encoding,
        ({ w with
          slots := ⟨w.slots.available - 1⟩
          bytes := ⟨w.bytes.available - (m.text S).length⟩ } : Link).giveBack 1
            (m.text S).length) := by
      unfold sendJsonV1
      rw [hm]
      dsimp only
      rw [hcount]
      dsimp only
      rw [hreserve]
      dsimp only
      rw [hraw]
      dsimp only
      rw [if_pos (Ne.symm hdiffer)]
    rw [hsend]
    exact ⟨rfl, rfl⟩

/-- **A frame is sent exactly when its texts have no special character.**  For every body that goes
to the gateway and whose frame can be encoded, over an open transport with room for it: if no text
of the body has one of `&`, `<`, `>`, U+2028 and U+2029, the count is the length of what is encoded
and exactly those bytes are put into the queue; otherwise the count is another number, the call
fails with `Encoding`, and nothing is put into the queue. -/
theorem sent_iff (hformat : Json.WordFormat S.format) (hsplit : ∀ raw, (split raw).flatten = raw)
    (hm : toJson S L M rfc3339 ⟨version, some body⟩ .toGateway = .ok m)
    (hraw : m.encode S split = .ok raw) (hroom : HasRoom w cancel raw.length) :
    (AllFree (bodyTexts rfc3339 body) →
      countOf (split (m.text S)) = some raw.length ∧
        ∃ w', sendJsonV1 S split L M rfc3339 w body cancel = (.ok (), w') ∧
          Submitted w w' cancel raw) ∧
    (¬ AllFree (bodyTexts rfc3339 body) →
      countOf (split (m.text S)) ≠ some raw.length ∧
        (sendJsonV1 S split L M rfc3339 w body cancel).1 = .error .encoding ∧
        (sendJsonV1 S split L M rfc3339 w body cancel).2.accepted = w.accepted) := by
  obtain ⟨hcount, hlength, hsame, hdiffer⟩ := sendJsonV1_eq hformat hsplit hm hraw hroom
  constructor
  · intro hfree
    have hlength := hlength.mpr hfree
    exact ⟨hcount.trans (congrArg some hlength), hsame hlength⟩
  · intro hspecial
    have hlength : (m.text S).length ≠ raw.length := fun heq => hspecial (hlength.mp heq)
    exact ⟨fun hsome => hlength (Option.some.inj (hcount.symm.trans hsome)), hdiffer hlength⟩

/-- Where the count is right `send` never fails with `Encoding`, whatever becomes of the
    transport. -/
theorem sendJsonV1_counted {count : ℕ}
    (hm : toJson S L M rfc3339 ⟨version, some body⟩ .toGateway = .ok m)
    (hcount : countOf (split (m.text S)) = some count) (hraw : m.encode S split = .ok raw)
    (hlength : raw.length = count) (w : Link) (cancel : ℕ) :
    (sendJsonV1 S split L M rfc3339 w body cancel).1 ≠ .error .encoding := by
  unfold sendJsonV1
  rw [hm]
  dsimp only
  rw [hcount]
  dsimp only
  cases w.tryReserve count with
  | error e => exact fun h => by cases h
  | ok reserved =>
    obtain ⟨r, w₁⟩ := reserved
    dsimp only
    rw [hraw]
    dsimp only
    rw [if_neg (not_not_intro hlength)]
    cases w₁.submitInner r raw cancel true with
    | mk result w₂ =>
      cases result with
      | error e => exact fun h => by cases h
      | ok u => exact fun h => by cases h

/-- **When `send` keeps its word.**  For a body that goes to the gateway and whose frame can be
encoded: the count is the length of what is encoded, an open transport with room for it is given
exactly those bytes, and no transport at all makes the call fail with `Encoding`.  All of this holds
exactly when no text of the body has one of `&`, `<`, `>`, U+2028 and U+2029. -/
theorem accepted_iff (hformat : Json.WordFormat S.format)
    (hsplit : ∀ raw, (split raw).flatten = raw)
    (hm : toJson S L M rfc3339 ⟨version, some body⟩ .toGateway = .ok m)
    (hraw : m.encode S split = .ok raw) :
    (countOf (split (m.text S)) = some raw.length ∧
      (∀ w cancel, HasRoom w cancel raw.length → ∃ w',
        sendJsonV1 S split L M rfc3339 w body cancel = (.ok (), w') ∧ Submitted w w' cancel raw) ∧
      ∀ w cancel, (sendJsonV1 S split L M rfc3339 w body cancel).1 ≠ .error .encoding) ↔
    AllFree (bodyTexts rfc3339 body) := by
  obtain ⟨hdirection, hframe⟩ := toJson_ok hm
  have hfits := frameOf_fits hformat hdirection hframe
  obtain ⟨hle, hmax, -, hlength⟩ := encode_length hsplit hfits hraw
  have hflat := hsplit (m.text S)
  have hcount : countOf (split (m.text S)) = some (m.text S).length := by
    rw [countOf_flatten (by rw [hflat]; omega), hflat]
  constructor
  · rintro ⟨hcounted, -, -⟩
    exact hlength.mp (Option.some.inj (hcount.symm.trans hcounted))
  · intro hfree
    have hsame := hlength.mpr hfree
    refine ⟨hcount.trans (congrArg some hsame), fun w cancel hroom => ?_, fun w cancel => ?_⟩
    · exact (sendJsonV1_eq hformat hsplit hm hraw hroom).2.2.1 hsame
    · exact sendJsonV1_counted hm hcount hraw hsame.symm w cancel

end

namespace SendExample

/-- A layout whose numbers nothing here depends on. -/
def layout : Layout := ⟨fun _ => 0, 0, id, id⟩

/-- The refusal of a request. -/
def refusal : EnvelopeBody := .response { id := "r", error := "a & b", result := none }

/-- The frame of the refusal. -/
def frame : Wire.Message :=
  { Wire.Message.default with kind := "response", id := "r", error := "a & b" }

/-- A transport that was just started. -/
def opened : Link where
  byteLimit := queuedBytes
  protocol := .jsonV1
  slots := ⟨queuedFrames⟩
  bytes := ⟨queuedBytes⟩
  waiting := []
  reservations := []
  queue := .new queuedFrames
  writer := .waiting
  stopped := false
  clock := 0
  cancelled := []
  closing := []
  accepted := []
  dropped := []
  replies := []
  started := []
  written := []

theorem start_opened : start .jsonV1 queuedBytes = .ok opened :=
  if_neg (by decide)

theorem hasRoom_opened {cancel size : ℕ} (h : size ≤ queuedBytes) : HasRoom opened cancel size where
  running := rfl
  wanted := List.not_mem_nil
  protocol := rfl
  slot := by decide
  bytes := h
  limit := h
  opened := rfl
  queue := by decide

theorem toJson_refusal : toJson Json.Compact.serde layout (fun _ => 0) (fun _ => none)
    ⟨version, some refusal⟩ .toGateway = .ok frame := by
  have hvalid : validate layout (Snapshots.parseTime fun _ => none) ⟨version, some refusal⟩
      .toGateway = .ok () := by
    decide
  unfold toJson
  rw [hvalid]
  rfl

theorem format_word : Json.WordFormat Json.Compact.serde.format := by
  intro bits b hb
  cases hb

/-- The refusal can be encoded. -/
theorem encode_refusal :
    ∃ raw, frame.encode Json.Compact.serde (fun raw => [raw]) = .ok raw := by
  have hfits := frameOf_fits format_word (toJson_ok toJson_refusal).1 (toJson_ok toJson_refusal).2
  have hsplit : ∀ raw : List UInt8, [raw].flatten = raw := fun raw => List.flatten_singleton
  have hvalid : frame.validateFields = .ok () := by decide
  have hsmall : 6 * (frame.text Json.Compact.serde).length ≤ maxMessage := by decide
  exact encode_small hsplit hfits hvalid rfl hsmall

theorem refusal_special : ¬ AllFree (bodyTexts (fun _ => none) refusal) := by
  intro hfree
  have hspace : Json.htmlFree "a & b" = true := hfree "a & b" (by decide)
  exact absurd hspace (by decide)

/-- The refusal never leaves the home. -/
theorem refusal_kept :
    (sendJsonV1 Json.Compact.serde (fun raw => [raw]) layout (fun _ => 0) (fun _ => none) opened
        refusal 0).1 = .error .encoding ∧
      (sendJsonV1 Json.Compact.serde (fun raw => [raw]) layout (fun _ => 0) (fun _ => none) opened
        refusal 0).2.accepted = [] := by
  obtain ⟨raw, hraw⟩ := encode_refusal
  have hsplit : ∀ raw : List UInt8, [raw].flatten = raw := fun raw => List.flatten_singleton
  have hfits := frameOf_fits format_word (toJson_ok toJson_refusal).1 (toJson_ok toJson_refusal).2
  obtain ⟨-, hmax, -⟩ := encode_length hsplit hfits hraw
  have hroom : HasRoom opened 0 raw.length := hasRoom_opened hmax
  have hsent := sent_iff format_word hsplit toJson_refusal hraw hroom
  exact (hsent.2 refusal_special).2

/-- A frame that can be encoded is refused, over a transport with room for it. -/
theorem refusal_refused : ¬ ∀ (S : Serde) (split : List UInt8 → List (List UInt8)) (L : Layout)
    (M : Snapshots.ModelName → ℕ) (rfc3339 : String → Option (DateTime × ℤ)) (body : EnvelopeBody)
    (m : Wire.Message) (raw : List UInt8) (w : Link) (cancel : ℕ), Json.WordFormat S.format →
    (∀ raw, (split raw).flatten = raw) →
    toJson S L M rfc3339 ⟨version, some body⟩ .toGateway = .ok m → m.encode S split = .ok raw →
    HasRoom w cancel raw.length → countOf (split (m.text S)) = some raw.length ∧
      (sendJsonV1 S split L M rfc3339 w body cancel).1 ≠ .error .encoding := by
  intro h
  obtain ⟨raw, hraw⟩ := encode_refusal
  have hsplit : ∀ raw : List UInt8, [raw].flatten = raw := fun raw => List.flatten_singleton
  have hfits := frameOf_fits format_word (toJson_ok toJson_refusal).1 (toJson_ok toJson_refusal).2
  obtain ⟨-, hmax, -, hlength⟩ := encode_length hsplit hfits hraw
  have hroom : HasRoom opened 0 raw.length := hasRoom_opened hmax
  obtain ⟨-, -, -, hdiffer⟩ := sendJsonV1_eq format_word hsplit toJson_refusal hraw hroom
  refine (h _ _ _ _ _ _ _ _ _ _ format_word hsplit toJson_refusal hraw hroom).2 ?_
  exact (hdiffer fun heq => refusal_special (hlength.mp heq)).1

/-- So the count of its frame is wrong, or a transport with room refuses it. -/
theorem refusal_miscounted : ∃ raw, frame.encode Json.Compact.serde (fun raw => [raw]) = .ok raw ∧
    ¬ (countOf [frame.text Json.Compact.serde] = some raw.length ∧
      (∀ w cancel, HasRoom w cancel raw.length → ∃ w',
        sendJsonV1 Json.Compact.serde (fun raw => [raw]) layout (fun _ => 0)
        (fun _ => none) w refusal
          cancel = (.ok (), w') ∧ Submitted w w' cancel raw) ∧
      ∀ w cancel, (sendJsonV1 Json.Compact.serde (fun raw => [raw]) layout (fun _ => 0)
        (fun _ => none) w refusal cancel).1 ≠ .error .encoding) := by
  obtain ⟨raw, hraw⟩ := encode_refusal
  have hsplit : ∀ raw : List UInt8, [raw].flatten = raw := fun raw => List.flatten_singleton
  exact ⟨raw, hraw, fun h =>
    refusal_special ((accepted_iff format_word hsplit toJson_refusal hraw).mp h)⟩

end SendExample

end Hmux.Home
