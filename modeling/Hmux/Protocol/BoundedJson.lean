import Hmux.Protocol.Scan
import Hmux.Lib.Json.Unspaced

namespace Hmux.Protocol

open Lib.Json

/-!
# The writer of web frames

The writer of `wire.rs` takes a frame in pieces that may end inside a string, an escape or a
character.  It drops the white space outside strings, escapes the special characters, and holds
back the two bytes that U+2028 and U+2029 have in common.

* `BoundedJson.write`, `BoundedJson.finish` — the code;
* `passed` — what a run of bytes adds, without the limit (`writeBytes_adds`);
* `passed_text` — on a text, that is its `unspaced` and `htmlSafe` form;
* `stream_text` — **the pieces do not matter, and what is written is the text of the same value**.

Two things make the writer hard to read: where it is in the text is spread over three flags, and
bytes that may be the beginning of a separator are kept back.  The proofs split it into what a byte
adds and where the writer is afterwards, so that a run of bytes is a fold and the pieces are
forgotten at once.
-/

/-! ### The code

The functions of the source one by one, with the same early returns. -/

/-- `BoundedJson`. -/
structure BoundedJson where
  bytes : List UInt8
  full : Bool
  quoted : Bool
  escaped : Bool
  unicodePrefix : UInt8
  /-- `MAX_MESSAGE - self.bytes.len()` is a length. -/
  fits : bytes.length ≤ maxMessage

/-- A byte literal. -/
def ascii (c : Char) : UInt8 := UInt8.ofNat c.toNat

namespace BoundedJson

/-- `BoundedJson::new`. -/
def new : BoundedJson where
  bytes := []
  full := false
  quoted := false
  escaped := false
  unicodePrefix := 0
  fits := Nat.zero_le _

/-- `append`.  The only error, `message limit`, leaves the writer full. -/
def append (w : BoundedJson) (bytes : List UInt8) : Except BoundedJson BoundedJson :=
  if h : maxMessage - w.bytes.length < bytes.length then .error { w with full := true }
  else .ok { w with
    bytes := w.bytes ++ bytes
    fits := by
      have := w.fits
      rw [List.length_append]
      omega }

/-- The bytes of an escape. -/
def escape (s : String) : List UInt8 := s.toList.map ascii

/-- The last `match` of `emit`. -/
def emitByte (w : BoundedJson) (byte : UInt8) : Except BoundedJson BoundedJson :=
  if byte = 0xe2 then .ok { w with unicodePrefix := 1 }
  else if byte = ascii '&' then w.append (escape "\\u0026")
  else if byte = ascii '<' then w.append (escape "\\u003c")
  else if byte = ascii '>' then w.append (escape "\\u003e")
  else w.append [byte]

/-- `emit`. -/
def emit (w : BoundedJson) (byte : UInt8) : Except BoundedJson BoundedJson :=
  if w.unicodePrefix = 1 then
    if byte = 0x80 then .ok { w with unicodePrefix := 2 }
    else do
      let w ← w.append [0xe2]
      emitByte { w with unicodePrefix := 0 } byte
  else if w.unicodePrefix = 2 then
    if byte = 0xa8 then append { w with unicodePrefix := 0 } (escape "\\u2028")
    else if byte = 0xa9 then append { w with unicodePrefix := 0 } (escape "\\u2029")
    else do
      let w ← w.append [0xe2, 0x80]
      emitByte { w with unicodePrefix := 0 } byte
  else emitByte { w with unicodePrefix := 0 } byte

/-- `finish`. -/
def finish (w : BoundedJson) : Except BoundedJson (List UInt8) := do
  let w ←
    if w.unicodePrefix = 1 then w.append [0xe2]
    else if w.unicodePrefix = 2 then w.append [0xe2, 0x80]
    else .ok w
  return w.bytes

/-- One turn of the loop of `write`. -/
def writeByte (w : BoundedJson) (byte : UInt8) : Except BoundedJson BoundedJson :=
  if w.quoted then
    if w.escaped then emit { w with escaped := false } byte
    else if byte = ascii '\\' then emit { w with escaped := true } byte
    else if byte = ascii '"' then emit { w with quoted := false } byte
    else w.emit byte
  else if byte = ascii '"' then emit { w with quoted := true } byte
  else if byte = ascii ' ' ∨ byte = ascii '\n' ∨ byte = ascii '\r' ∨ byte = ascii '\t' then .ok w
  else w.emit byte

/-- The loop of `write`. -/
def writeBytes (w : BoundedJson) (raw : List UInt8) : Except BoundedJson BoundedJson :=
  raw.foldlM writeByte w

/-- `Write::write`: the writer after it, and the number of bytes written. -/
def write (w : BoundedJson) (raw : List UInt8) : Except BoundedJson (BoundedJson × ℕ) := do
  let w ← w.writeBytes raw
  return (w, raw.length)

end BoundedJson

/-- A new writer takes the pieces one after the other, and is finished. -/
def stream (chunks : List (List UInt8)) : Except BoundedJson (List UInt8) := do
  let w ← chunks.foldlM (fun w raw => do
    let (w, _) ← w.write raw
    return w) BoundedJson.new
  w.finish

/-! ### The pieces do not matter

A write goes through its bytes one after the other, and so does a sequence of writes. -/

/-- Writing chunk by chunk is writing all bytes. -/
theorem foldlM_write (chunks : List (List UInt8)) (w : BoundedJson) :
    chunks.foldlM (fun w raw => do
      let (w, _) ← w.write raw
      return w) w = w.writeBytes chunks.flatten := by
  induction chunks generalizing w with
  | nil => rfl
  | cons raw chunks ih =>
    rw [List.foldlM_cons, List.flatten_cons, BoundedJson.writeBytes, List.foldlM_append]
    show ((w.write raw >>= fun p => pure p.1) >>= _) = (w.writeBytes raw >>= _)
    unfold BoundedJson.write
    cases w.writeBytes raw with
    | error w' => rfl
    | ok w' => exact ih w'

/-- The chunks of a stream do not matter. -/
theorem stream_flatten (chunks : List (List UInt8)) :
    stream chunks = (BoundedJson.new.writeBytes chunks.flatten >>= BoundedJson.finish) := by
  unfold stream
  rw [foldlM_write]

/-! ### What a run of bytes adds

Without its limit the writer is a function from bytes to bytes; with it, it does the same or stops.
-/

/-- Where a writer is in a text. -/
structure Place where
  quoted : Bool
  escaped : Bool
  pending : UInt8
  deriving DecidableEq

/-- Where it is. -/
def BoundedJson.place (w : BoundedJson) : Place := ⟨w.quoted, w.escaped, w.unicodePrefix⟩

/-- `Adds w out p r`: a call adds `out` to the writer `w` and leaves it at `p`, or there is no room
for it. -/
def Adds (w : BoundedJson) (out : List UInt8) (p : Place) : Except BoundedJson BoundedJson → Prop
  | .ok w' => w'.bytes = w.bytes ++ out ∧ w'.full = w.full ∧ w'.place = p
  | .error w' => maxMessage < w.bytes.length + out.length ∧ w'.full = true

/-- Bytes are appended in the same place. -/
theorem append_adds (w : BoundedJson) (bytes : List UInt8) :
    Adds w bytes w.place (w.append bytes) := by
  unfold BoundedJson.append
  split
  · next hfull => exact ⟨by omega, rfl⟩
  · exact ⟨rfl, rfl, rfl⟩

/-- **Calls one after the other.** -/
theorem Adds.bind {w : BoundedJson} {out more : List UInt8} {p q : Place}
    {r : Except BoundedJson BoundedJson} {f : BoundedJson → Except BoundedJson BoundedJson}
    (h : Adds w out p r) (hf : ∀ w', w'.place = p → Adds w' more q (f w')) :
    Adds w (out ++ more) q (r >>= f) := by
  cases r with
  | error w' =>
    refine ⟨?_, h.2⟩
    have := h.1
    rw [List.length_append]
    omega
  | ok w' =>
    obtain ⟨hbytes, hfull, hplace⟩ := h
    have hnext := hf w' hplace
    show Adds w (out ++ more) q (f w')
    cases hr : f w' with
    | error w'' =>
      rw [hr] at hnext
      refine ⟨?_, hnext.2⟩
      have := hnext.1
      rw [hbytes, List.length_append] at this
      rw [List.length_append]
      omega
    | ok w'' =>
      rw [hr] at hnext
      obtain ⟨hbytes', hfull', hplace'⟩ := hnext
      exact ⟨by rw [hbytes', hbytes, List.append_assoc], hfull'.trans hfull, hplace'⟩

/-- What a byte adds when nothing is held back, and what is held back after it. -/
def plainByte (byte : UInt8) : List UInt8 × UInt8 :=
  if byte = 0xe2 then ([], 1)
  else if byte = ascii '&' then (BoundedJson.escape "\\u0026", 0)
  else if byte = ascii '<' then (BoundedJson.escape "\\u003c", 0)
  else if byte = ascii '>' then (BoundedJson.escape "\\u003e", 0)
  else ([byte], 0)

/-- What a byte adds after what is held back. -/
def emitted (pending byte : UInt8) : List UInt8 × UInt8 :=
  if pending = 1 then
    if byte = 0x80 then ([], 2) else (0xe2 :: (plainByte byte).1, (plainByte byte).2)
  else if pending = 2 then
    if byte = 0xa8 then (BoundedJson.escape "\\u2028", 0)
    else if byte = 0xa9 then (BoundedJson.escape "\\u2029", 0)
    else (0xe2 :: 0x80 :: (plainByte byte).1, (plainByte byte).2)
  else plainByte byte

/-- A byte that is no part of a longer character is written or escaped. -/
theorem emitByte_adds {w : BoundedJson} (hp : w.unicodePrefix = 0) (byte : UInt8) :
    Adds w (plainByte byte).1 ⟨w.quoted, w.escaped, (plainByte byte).2⟩ (w.emitByte byte) := by
  have hplace : w.place = ⟨w.quoted, w.escaped, 0⟩ := by
    unfold BoundedJson.place
    rw [hp]
  unfold BoundedJson.emitByte plainByte
  split_ifs
  · exact ⟨(List.append_nil _).symm, rfl, rfl⟩
  · exact hplace ▸ append_adds w _
  · exact hplace ▸ append_adds w _
  · exact hplace ▸ append_adds w _
  · exact hplace ▸ append_adds w _

/-- `emit` after what is held back has been added. -/
theorem held_adds (w : BoundedJson) (held : List UInt8) (byte : UInt8) :
    Adds w (held ++ (plainByte byte).1) ⟨w.quoted, w.escaped, (plainByte byte).2⟩ (do
      let w ← w.append held
      BoundedJson.emitByte { w with unicodePrefix := 0 } byte) := by
  apply (append_adds w held).bind
  intro w' hplace
  have hquoted : w'.quoted = w.quoted := congrArg Place.quoted hplace
  have hescaped : w'.escaped = w.escaped := congrArg Place.escaped hplace
  rw [← hquoted, ← hescaped]
  have := emitByte_adds (w := { w' with unicodePrefix := 0 }) rfl byte
  exact this

/-- What was held back comes first. -/
theorem emit_adds (w : BoundedJson) (byte : UInt8) :
    Adds w (emitted w.unicodePrefix byte).1 ⟨w.quoted, w.escaped, (emitted w.unicodePrefix byte).2⟩
      (w.emit byte) := by
  unfold BoundedJson.emit emitted
  split_ifs
  · exact ⟨(List.append_nil _).symm, rfl, rfl⟩
  · exact held_adds w [0xe2] byte
  · exact append_adds { w with unicodePrefix := 0 } _
  · exact append_adds { w with unicodePrefix := 0 } _
  · exact held_adds w [0xe2, 0x80] byte
  · exact emitByte_adds (w := { w with unicodePrefix := 0 }) rfl byte

/-- `emit` of a writer whose flags have been set. -/
theorem flagged_adds {w flagged : BoundedJson} (hbytes : flagged.bytes = w.bytes)
    (hfull : flagged.full = w.full) (hpending : flagged.unicodePrefix = w.unicodePrefix)
    {byte : UInt8} {quoted escaped : Bool} (hquoted : flagged.quoted = quoted)
    (hescaped : flagged.escaped = escaped) :
    Adds w (emitted w.unicodePrefix byte).1 ⟨quoted, escaped, (emitted w.unicodePrefix byte).2⟩
      (flagged.emit byte) := by
  have hemit := emit_adds flagged byte
  rw [hpending, hquoted, hescaped] at hemit
  cases hr : flagged.emit byte with
  | error w' =>
    rw [hr] at hemit
    exact ⟨hbytes ▸ hemit.1, hemit.2⟩
  | ok w' =>
    rw [hr] at hemit
    exact ⟨hbytes ▸ hemit.1, hfull ▸ hemit.2.1, hemit.2.2⟩

/-- What a byte adds, and where the writer is after it. -/
def passByte (p : Place) (byte : UInt8) : List UInt8 × Place :=
  let out := emitted p.pending byte
  if p.quoted then
    if p.escaped then (out.1, ⟨true, false, out.2⟩)
    else (out.1, ⟨byte ≠ ascii '"', byte = ascii '\\', out.2⟩)
  else if byte = ascii ' ' ∨ byte = ascii '\n' ∨ byte = ascii '\r' ∨ byte = ascii '\t' then ([], p)
  else (out.1, ⟨byte = ascii '"', p.escaped, out.2⟩)

/-- **Step lemma.** A byte adds what passes of it. -/
theorem writeByte_adds (w : BoundedJson) (byte : UInt8) :
    Adds w (passByte w.place byte).1 (passByte w.place byte).2 (w.writeByte byte) := by
  unfold BoundedJson.writeByte passByte BoundedJson.place
  dsimp only
  by_cases hquoted : w.quoted = true
  · rw [if_pos hquoted, if_pos hquoted]
    -- a byte after a backslash passes and ends the escape
    by_cases hescaped : w.escaped = true
    · rw [if_pos hescaped, if_pos hescaped]
      exact flagged_adds rfl rfl rfl hquoted rfl
    · rw [if_neg hescaped, if_neg hescaped]
      rw [Bool.not_eq_true] at hescaped
      -- a backslash begins one
      by_cases hslash : byte = ascii '\\'
      · rw [if_pos hslash]
        have hquote : byte ≠ ascii '"' := by
          rw [hslash]
          decide
        exact flagged_adds rfl rfl rfl (hquoted.trans (decide_eq_true hquote).symm)
          (decide_eq_true hslash).symm
      · rw [if_neg hslash]
        have hclosed : w.escaped = decide (byte = ascii '\\') :=
          hescaped.trans (decide_eq_false hslash).symm
        -- a quote ends the text
        by_cases hquote : byte = ascii '"'
        · rw [if_pos hquote]
          exact flagged_adds rfl rfl rfl (decide_eq_false (not_not_intro hquote)).symm hclosed
        · rw [if_neg hquote]
          exact flagged_adds rfl rfl rfl (hquoted.trans (decide_eq_true hquote).symm) hclosed
  · rw [if_neg hquoted, if_neg hquoted]
    rw [Bool.not_eq_true] at hquoted
    -- outside a text, a quote begins one
    by_cases hquote : byte = ascii '"'
    · have hspace : ¬ (byte = ascii ' ' ∨ byte = ascii '\n' ∨ byte = ascii '\r' ∨
          byte = ascii '\t') := by
        rw [hquote]
        decide
      rw [if_pos hquote, if_neg hspace]
      exact flagged_adds rfl rfl rfl (decide_eq_true hquote).symm rfl
    · rw [if_neg hquote]
      -- and blanks are left out
      by_cases hspace : byte = ascii ' ' ∨ byte = ascii '\n' ∨ byte = ascii '\r' ∨ byte = ascii '\t'
      · rw [if_pos hspace, if_pos hspace]
        exact ⟨(List.append_nil _).symm, rfl, rfl⟩
      · rw [if_neg hspace, if_neg hspace]
        exact flagged_adds rfl rfl rfl (hquoted.trans (decide_eq_false hquote).symm) rfl

/-- What a run of bytes adds, and where the writer is after it. -/
def passed (p : Place) : List UInt8 → List UInt8 × Place
  | [] => ([], p)
  | byte :: raw =>
    let first := passByte p byte
    let rest := passed first.2 raw
    (first.1 ++ rest.1, rest.2)

/-- **A run of bytes adds what each of them adds.** -/
theorem writeBytes_adds (w : BoundedJson) (raw : List UInt8) :
    Adds w (passed w.place raw).1 (passed w.place raw).2 (w.writeBytes raw) := by
  induction raw generalizing w with
  | nil => exact ⟨(List.append_nil _).symm, rfl, rfl⟩
  | cons byte raw ih =>
    let first := passByte w.place byte
    show Adds w (first.1 ++ (passed first.2 raw).1) (passed first.2 raw).2
      (w.writeByte byte >>= fun w' => w'.writeBytes raw)
    apply (writeByte_adds w byte).bind
    intro w' hplace
    rw [← hplace]
    exact ih w'

/-- What passes of two texts passes one after the other. -/
theorem passed_append (p : Place) (a b : List UInt8) :
    passed p (a ++ b) =
      ((passed p a).1 ++ (passed (passed p a).2 b).1, (passed (passed p a).2 b).2) := by
  induction a generalizing p with
  | nil => rfl
  | cons byte a ih =>
    rw [List.cons_append, passed, passed, ih]
    dsimp only
    rw [List.append_assoc]

/-! ### What a text adds

A text is made of whole characters.  Those above ASCII pass as they are, except for the two
separators, which share their first two bytes with many others. -/

/-- The bytes of a text. -/
def textBytes (l : List Char) : List UInt8 := l.flatMap String.utf8EncodeChar

/-- The bytes of a text are those of its characters. -/
theorem bytes_ofText (l : List Char) : bytes (String.ofList l) = textBytes l := by
  rw [bytes_eq_flatMap, String.toList_ofList]
  rfl

/-- The bytes of two texts are one after the other. -/
theorem textBytes_append (l m : List Char) : textBytes (l ++ m) = textBytes l ++ textBytes m :=
  List.flatMap_append

/-- A character below 128 is its byte. -/
theorem toNat_ascii {c : Char} (h : c.toNat < 128) : (ascii c).toNat = c.toNat := by
  unfold ascii
  rw [UInt8.toNat_ofNat']
  omega

/-- A character of one byte is known from it. -/
theorem ascii_inj {c d : Char} (hc : c.toNat < 128) (hd : d.toNat < 128) :
    ascii c = ascii d ↔ c = d := by
  constructor
  · intro h
    have hnat := congrArg UInt8.toNat h
    rw [toNat_ascii hc, toNat_ascii hd] at hnat
    exact Char.toNat_inj.mp hnat
  · rintro rfl
    rfl

/-- The bytes of a longer character are none of those that the writer looks for in a text. -/
theorem ascii_ne_high {byte : UInt8} (h : 0x80 ≤ byte) {d : Char} (hd : d.toNat < 128) :
    byte ≠ ascii d := by
  rintro rfl
  have hnat := UInt8.le_iff_toNat_le.mp h
  rw [toNat_ascii hd] at hnat
  have h128 : (0x80 : UInt8).toNat = 128 := rfl
  omega

/-- A byte above 127 only leaves an escape behind. -/
theorem passByte_high (p : Place) {byte : UInt8} (h : 0x80 ≤ byte) :
    passByte p byte = ((emitted p.pending byte).1,
      ⟨p.quoted, !p.quoted && p.escaped, (emitted p.pending byte).2⟩) := by
  have hquote : byte ≠ ascii '"' := ascii_ne_high h (by decide)
  have hslash : byte ≠ ascii '\\' := ascii_ne_high h (by decide)
  have hspace :
    ¬ (byte = ascii ' ' ∨ byte = ascii '\n' ∨ byte = ascii '\r' ∨ byte = ascii '\t') := by
    rintro (hs | hs | hs | hs)
    · exact ascii_ne_high h (by decide) hs
    · exact ascii_ne_high h (by decide) hs
    · exact ascii_ne_high h (by decide) hs
    · exact ascii_ne_high h (by decide) hs
  unfold passByte
  dsimp only
  rw [if_neg hspace, decide_eq_true hquote, decide_eq_false hslash, decide_eq_false hquote]
  obtain ⟨quoted, escaped, pending⟩ := p
  cases quoted
  · rfl
  · cases escaped
    · rfl
    · rfl

/-- It is written as it is unless it may start a separator. -/
theorem plainByte_high {byte : UInt8} (h : 0x80 ≤ byte) (he2 : byte ≠ 0xe2) :
    plainByte byte = ([byte], 0) := by
  have hamp : byte ≠ ascii '&' := ascii_ne_high h (by decide)
  have hlt : byte ≠ ascii '<' := ascii_ne_high h (by decide)
  have hgt : byte ≠ ascii '>' := ascii_ne_high h (by decide)
  unfold plainByte
  rw [if_neg he2, if_neg hamp, if_neg hlt, if_neg hgt]

/-- A run of bytes none of which the writer looks for. -/
theorem passed_high (p : Place) (hp : p.pending = 0) {raw : List UInt8}
    (h : ∀ byte ∈ raw, 0x80 ≤ byte ∧ byte ≠ 0xe2) (hraw : raw ≠ []) :
    passed p raw = (raw, ⟨p.quoted, !p.quoted && p.escaped, 0⟩) := by
  induction raw generalizing p with
  | nil => exact absurd rfl hraw
  | cons byte raw ih =>
    obtain ⟨hhigh, he2⟩ := h byte List.mem_cons_self
    have hemitted : emitted p.pending byte = ([byte], 0) := by
      unfold emitted
      rw [hp, if_neg (by decide), if_neg (by decide), plainByte_high hhigh he2]
    rw [passed, passByte_high p hhigh, hemitted]
    dsimp only
    cases raw with
    | nil => rfl
    | cons next raw =>
      rw [ih _ rfl (fun b hb => h b (List.mem_cons_of_mem _ hb)) (List.cons_ne_nil _ _)]
      dsimp only
      rw [← Bool.and_assoc, Bool.and_self]
      rfl

/-- A character above 127 is no white space of JSON. -/
theorem not_isSpace_of_high {c : Char} (h : 128 ≤ c.toNat) : isSpace c = false := by
  by_contra hs
  rw [Bool.not_eq_false] at hs
  unfold isSpace at hs
  simp only [Bool.or_eq_true, decide_eq_true_eq] at hs
  rcases hs with ((rfl | rfl) | rfl) | rfl <;> revert h <;> decide

/-- A character above 127 changes no place but the escape. -/
theorem afterChar_high (quoted escaped : Bool) {c : Char} (h : 128 ≤ c.toNat) :
    afterChar quoted escaped c = (quoted, !quoted && escaped) := by
  have hquote : c ≠ '"' := by
    rintro rfl
    revert h
    decide
  have hslash : c ≠ '\\' := by
    rintro rfl
    revert h
    decide
  unfold afterChar
  rw [decide_eq_true hquote, decide_eq_false hslash, decide_eq_false hquote]
  cases quoted
  · rfl
  · cases escaped
    · rfl
    · rfl

/-- The writer passes a character as the text does. -/
def PassesChar (c : Char) : Prop :=
  ∀ quoted escaped, passed ⟨quoted, escaped, 0⟩ (String.utf8EncodeChar c) =
    (if !quoted && isSpace c then [] else textBytes (htmlSafe [c]),
      ⟨(afterChar quoted escaped c).1, (afterChar quoted escaped c).2, 0⟩)

/-- A character of one byte. -/
theorem passesChar_ascii {c : Char} (h : c.toNat < 128) : PassesChar c := by
  intro quoted escaped
  -- such a character is one byte
  have hbytes : String.utf8EncodeChar c = [ascii c] := by
    have hle : c.val.toNat ≤ 0x7f := Nat.le_of_lt_succ h
    unfold String.utf8EncodeChar
    rw [if_pos hle]
    rfl
  have hnot : ascii c ≠ 0xe2 := by
    intro he2
    have hnat := congrArg UInt8.toNat he2
    rw [toNat_ascii h] at hnat
    have h226 : (0xe2 : UInt8).toNat = 226 := rfl
    omega
  -- four characters are escaped or guarded, the others stay
  have hplain : plainByte (ascii c) = (textBytes (htmlSafe [c]), 0) := by
    have hinj : ∀ {d : Char}, d.toNat < 128 → (ascii c = ascii d ↔ c = d) := ascii_inj h
    unfold plainByte
    rw [if_neg hnot]
    simp only [hinj (show '&'.toNat < 128 by decide), hinj (show '<'.toNat < 128 by decide),
      hinj (show '>'.toNat < 128 by decide)]
    split_ifs with hamp hlt hgt
    · rw [hamp]
      decide
    · rw [hlt]
      decide
    · rw [hgt]
      decide
    · have hfree : c ∉ htmlChars := by
        simp only [htmlChars, List.mem_cons, List.not_mem_nil, or_false, not_or]
        refine ⟨hlt, hgt, hamp, ?_, ?_⟩
        · rintro rfl
          revert h
          decide
        · rintro rfl
          revert h
          decide
      rw [htmlSafe_plain hfree]
      unfold textBytes
      rw [List.flatMap_singleton, hbytes]
  -- it does not begin one of the two separators
  have hemitted : emitted 0 (ascii c) = (textBytes (htmlSafe [c]), 0) := by
    unfold emitted
    rw [if_neg (by decide), if_neg (by decide), hplain]
  have hspace : (ascii c = ascii ' ' ∨ ascii c = ascii '\n' ∨ ascii c = ascii '\r' ∨
      ascii c = ascii '\t') ↔ isSpace c = true := by
    rw [ascii_inj h (by decide), ascii_inj h (by decide), ascii_inj h (by decide),
      ascii_inj h (by decide)]
    unfold isSpace
    simp only [Bool.or_eq_true, decide_eq_true_eq, or_assoc]
  have hquote : (ascii c = ascii '"') ↔ c = '"' := ascii_inj h (by decide)
  have hslash : (ascii c = ascii '\\') ↔ c = '\\' := ascii_inj h (by decide)
  rw [hbytes, passed, passed]
  dsimp only
  rw [List.append_nil]
  unfold passByte afterChar
  dsimp only
  simp only [hemitted, hspace, hquote, hslash, ne_eq]
  cases quoted
  -- outside of texts white space is dropped
  · by_cases hs : isSpace c = true
    · have hc : c ≠ '"' := by
        rintro rfl
        cases hs
      simp [hs, hc]
    · simp [hs]
  -- inside of them only the escape matters
  · cases escaped
    · simp
    · simp

/-- The bytes of a number below 256. -/
theorem ofNat_ne {n m : ℕ} (hn : n < 256) (hm : m < 256) (h : n ≠ m) :
    UInt8.ofNat n ≠ UInt8.ofNat m := by
  intro heq
  have hnat := congrArg UInt8.toNat heq
  rw [UInt8.toNat_ofNat', UInt8.toNat_ofNat'] at hnat
  omega

/-- Its bytes are above 127 too. -/
theorem high_ofNat {n : ℕ} (hn : n < 256) (h : 128 ≤ n) : 0x80 ≤ UInt8.ofNat n := by
  rw [UInt8.le_iff_toNat_le, UInt8.toNat_ofNat']
  have h128 : (0x80 : UInt8).toNat = 128 := rfl
  omega

/-- A byte that is not the first one of a character. -/
theorem tail_ofNat (n : ℕ) : 0x80 ≤ UInt8.ofNat (n % 0x40 + 0x80) ∧
    UInt8.ofNat (n % 0x40 + 0x80) ≠ 0xe2 :=
  ⟨high_ofNat (by omega) (by omega), ofNat_ne (m := 0xe2) (by omega) (by omega) (by omega)⟩

/-- Three bytes that start like those of U+2028 and go on in another way. -/
theorem passed_three (p : Place) (hp : p.pending = 0) {b c : UInt8} (hb : 0x80 ≤ b ∧ b ≠ 0xe2)
    (hc : 0x80 ≤ c ∧ c ≠ 0xe2) (hother : b = 0x80 → c ≠ 0xa8 ∧ c ≠ 0xa9) :
    passed p [0xe2, b, c] = ([0xe2, b, c], ⟨p.quoted, !p.quoted && p.escaped, 0⟩) := by
  have hfirst : passByte p 0xe2 = ([], ⟨p.quoted, !p.quoted && p.escaped, 1⟩) := by
    rw [passByte_high p (by decide), hp]
    rfl
  rw [passed, hfirst]
  dsimp only
  by_cases h80 : b = 0x80
  · obtain ⟨ha8, ha9⟩ := hother h80
    have hthird : emitted 2 c = ([0xe2, 0x80, c], 0) := by
      unfold emitted
      rw [if_neg (by decide), if_pos rfl, if_neg ha8, if_neg ha9, plainByte_high hc.1 hc.2]
    rw [h80, passed, passByte_high _ (by decide)]
    dsimp only
    rw [show emitted 1 0x80 = ([], 2) from rfl, passed, passByte_high _ hc.1]
    dsimp only
    rw [hthird, passed]
    simp
  · have hsecond : emitted 1 b = ([0xe2, b], 0) := by
      unfold emitted
      rw [if_pos rfl, if_neg h80, plainByte_high hb.1 hb.2]
    rw [passed, passByte_high _ hb.1]
    dsimp only
    rw [hsecond, passed_high _ rfl (by simpa using hc) (by simp)]
    simp

/-- A character with nothing special is passed as it is. -/
theorem passed_char_free {c : Char} (hhigh : 128 ≤ c.toNat) (h2028 : c ≠ '\u2028')
    (h2029 : c ≠ '\u2029') (p : Place) (hp : p.pending = 0) :
    passed p (String.utf8EncodeChar c) =
      (String.utf8EncodeChar c, ⟨p.quoted, !p.quoted && p.escaped, 0⟩) := by
  have hval : c.val.toNat = c.toNat := rfl
  have hmax : c.toNat < 0x110000 := by
    rcases c.valid with hv | hv
    · exact Nat.lt_trans hv (by decide)
    · exact hv.2
  have hne : ∀ d : Char, c ≠ d → c.toNat ≠ d.toNat := fun d hd heq => hd (Char.toNat_inj.mp heq)
  have h2028' : c.toNat ≠ 0x2028 := hne '\u2028' h2028
  have h2029' : c.toNat ≠ 0x2029 := hne '\u2029' h2029
  unfold String.utf8EncodeChar
  simp only [hval]
  generalize c.toNat = v at hhigh hmax h2028' h2029'
  -- two, three or four bytes; only those of three can begin as the two separators do
  rw [if_neg (by omega)]
  split_ifs with htwo hthree
  · apply passed_high p hp
    · intro byte hbyte
      simp only [List.mem_cons, List.not_mem_nil, or_false] at hbyte
      rcases hbyte with rfl | rfl
      · exact ⟨high_ofNat (by omega) (by omega), ofNat_ne (m := 0xe2) (by omega) (by omega)
          (by omega)⟩
      · exact tail_ofNat v
    · exact List.cons_ne_nil _ _
  -- the first byte is that of the separators, so the other two decide
  · by_cases hfirst : v / 4096 % 0x10 = 2
    · rw [hfirst]
      apply passed_three p hp (tail_ofNat (v / 64)) (tail_ofNat v)
      intro h80
      have hzero : v / 64 % 0x40 = 0 := by
        by_contra hz
        exact ofNat_ne (m := 0x80) (by omega) (by omega) (by omega) h80
      exact ⟨ofNat_ne (m := 0xa8) (by omega) (by omega) (by omega),
        ofNat_ne (m := 0xa9) (by omega) (by omega) (by omega)⟩
    · apply passed_high p hp
      · intro byte hbyte
        simp only [List.mem_cons, List.not_mem_nil, or_false] at hbyte
        rcases hbyte with rfl | rfl | rfl
        · exact ⟨high_ofNat (by omega) (by omega),
            ofNat_ne (m := 0xe2) (by omega) (by omega) (by omega)⟩
        · exact tail_ofNat (v / 64)
        · exact tail_ofNat v
      · exact List.cons_ne_nil _ _
  · apply passed_high p hp
    · intro byte hbyte
      simp only [List.mem_cons, List.not_mem_nil, or_false] at hbyte
      rcases hbyte with rfl | rfl | rfl | rfl
      · exact ⟨high_ofNat (by omega) (by omega),
          ofNat_ne (m := 0xe2) (by omega) (by omega) (by omega)⟩
      · exact tail_ofNat (v / 4096)
      · exact tail_ofNat (v / 64)
      · exact tail_ofNat v
    · exact List.cons_ne_nil _ _

/-- **The writer passes every character as the text does.** -/
theorem passesChar (c : Char) : PassesChar c := by
  by_cases hascii : c.toNat < 128
  · exact passesChar_ascii hascii
  · have hhigh : 128 ≤ c.toNat := Nat.not_lt.mp hascii
    intro quoted escaped
    rw [afterChar_high quoted escaped hhigh, not_isSpace_of_high hhigh, Bool.and_false,
      if_neg (by decide)]
    by_cases h2028 : c = '\u2028'
    · subst h2028
      revert quoted escaped
      decide
    · by_cases h2029 : c = '\u2029'
      · subst h2029
        revert quoted escaped
        decide
      · have hfree : c ∉ htmlChars := by
          simp only [htmlChars, List.mem_cons, List.not_mem_nil, or_false, not_or]
          refine ⟨?_, ?_, ?_, h2028, h2029⟩
          · rintro rfl
            revert hhigh
            decide
          · rintro rfl
            revert hhigh
            decide
          · rintro rfl
            revert hhigh
            decide
        rw [htmlSafe_plain hfree, passed_char_free hhigh h2028 h2029 _ rfl]
        unfold textBytes
        rw [List.flatMap_singleton]

/-- **What a text adds is its form without white space and special characters**, and nothing is
held back after it. -/
theorem passed_text (quoted escaped : Bool) (text : List Char) :
    (passed ⟨quoted, escaped, 0⟩ (textBytes text)).1 =
        textBytes (htmlSafe (unspaced quoted escaped text)) ∧
      (passed ⟨quoted, escaped, 0⟩ (textBytes text)).2.pending = 0 := by
  induction text generalizing quoted escaped with
  | nil => exact ⟨rfl, rfl⟩
  | cons c text ih =>
    obtain ⟨hrest, hpending⟩ := ih (afterChar quoted escaped c).1 (afterChar quoted escaped c).2
    have hcons : textBytes (c :: text) = String.utf8EncodeChar c ++ textBytes text :=
      List.flatMap_cons
    rw [hcons, passed_append, passesChar c quoted escaped]
    dsimp only
    rw [hrest, unspaced]
    refine ⟨?_, hpending⟩
    split_ifs with hskip
    · rfl
    · rw [htmlSafe_cons c (unspaced _ _ text), textBytes_append]

/-! ### What is written

The result in terms of the tokens of the text, so that it can be said to be the same value. -/

/-- What is written of the pieces of a text; the only thing that can go wrong is its length. -/
theorem stream_pass (text : List Char) {chunks : List (List UInt8)}
    (hchunks : chunks.flatten = textBytes text) :
    let out := textBytes (htmlSafe (unspaced false false text))
    (out.length ≤ maxMessage → stream chunks = .ok out) ∧
      (maxMessage < out.length → ∃ w, stream chunks = .error w ∧ w.full = true) := by
  dsimp only
  obtain ⟨hout, hpending⟩ := passed_text false false text
  have hadds := writeBytes_adds BoundedJson.new (textBytes text)
  rw [show BoundedJson.new.place = ⟨false, false, 0⟩ from rfl, hout] at hadds
  rw [stream_flatten, hchunks]
  constructor
  · intro hfits
    cases hr : BoundedJson.new.writeBytes (textBytes text) with
    | error w =>
      rw [hr] at hadds
      have hlong : maxMessage < 0 + _ := hadds.1
      omega
    | ok w =>
      rw [hr] at hadds
      obtain ⟨hbytes, -, hplace⟩ := hadds
      have hheld : w.unicodePrefix = 0 := (congrArg Place.pending hplace).trans hpending
      show w.finish = _
      unfold BoundedJson.finish
      rw [hheld]
      exact congrArg Except.ok (hbytes.trans (List.nil_append _))
  · intro hlong
    cases hr : BoundedJson.new.writeBytes (textBytes text) with
    | error w =>
      rw [hr] at hadds
      exact ⟨w, rfl, hadds.2⟩
    | ok w =>
      rw [hr] at hadds
      have hfits := w.fits
      rw [hadds.1, show BoundedJson.new.bytes = [] from rfl, List.nil_append] at hfits
      omega

/-- **The pieces of a text do not matter.**  What is written is the text without the white space
outside its strings and with its special characters escaped; it is the text of the same value, and
the only thing that can go wrong is its length. -/
theorem stream_text (text : String) (v : Tree) (h : Denotes text.toList v)
    (chunks : List (List UInt8)) (hchunks : chunks.flatten = bytes text) :
    let out := htmlSafe (unspaced false false text.toList)
    ((bytes (String.ofList out)).length ≤ maxMessage →
        stream chunks = .ok (bytes (String.ofList out))) ∧
      (maxMessage < (bytes (String.ofList out)).length →
        ∃ w, stream chunks = .error w ∧ w.full = true) ∧
      (∀ c ∈ out, c ≠ '&' ∧ c ≠ '<' ∧ c ≠ '>' ∧ c ≠ '\u2028' ∧ c ≠ '\u2029') ∧
      Denotes out v := by
  dsimp only
  have htext : bytes text = textBytes text.toList := bytes_eq_flatMap text
  obtain ⟨hfits, hlong⟩ := stream_pass text.toList (hchunks.trans htext)
  rw [bytes_ofText]
  refine ⟨hfits, hlong, ?_, h.htmlSafe_unspaced⟩
  · intro c hc
    have hfree := htmlSafe_free _ c hc
    simp only [htmlChars, List.mem_cons, List.not_mem_nil, or_false, not_or] at hfree
    exact ⟨hfree.2.2.1, hfree.1, hfree.2.1, hfree.2.2.2⟩

namespace BoundedJsonExample

/-- A frame with white space and special characters. -/
def frame : String := "[ \"<\u2028\" ]"

/-- The frame in pieces that end inside a character. -/
def pieces : List (List UInt8) :=
  [[91, 32, 34, 60, 0xe2], [0x80], [0xa8, 34, 32], [93]]

/-- Two chunks that cut a separator apart. -/
theorem stream_pieces :
    stream pieces = .ok (bytes "[\"\\u003c\\u2028\"]") ∧ Denotes "[\"\\u003c\\u2028\"]".toList
      (.arr [.str [60, 0x2028]]) := by
  have hvalid : (Tree.arr [.str [60, 0x2028]]).Valid := by
    refine .arr fun v hv => ?_
    rw [List.mem_singleton] at hv
    exact hv ▸ .str _
  have hbody : Body ['<', '\u2028'] [60, 0x2028] :=
    .plain (by decide) (by decide) (by decide) (.plain (by decide) (by decide) (by decide) .nil)
  have hlex : lex frame.toList = some (Tree.arr [.str [60, 0x2028]]).spell := by
    show lex ('[' :: ' ' :: '"' :: (['<', '\u2028'] ++ '"' :: [' ', ']'])) = _
    rw [lex_punct _ rfl rfl, lex_space _ rfl, lex_quote, hbody.lexString, Option.bind_some]
    dsimp only
    rw [lex_space _ rfl, lex_punct _ rfl rfl, lex]
    rfl
  have h := stream_text frame _ ⟨hvalid, hlex⟩ pieces (by decide)
  have hout : htmlSafe (unspaced false false frame.toList) = "[\"\\u003c\\u2028\"]".toList := by
    decide
  dsimp only at h
  rw [hout, String.ofList_toList] at h
  exact ⟨h.1 (by decide), h.2.2.2⟩

end BoundedJsonExample

end Hmux.Protocol
