import Hmux.Protocol.ScanSpec
import Hmux.Protocol.Validate

namespace Hmux.Protocol

open Lib Lib.Proto Pb Usage

/-!
# Frames of the protobuf transport

`decode` looks through a frame before it builds the message, and `encode` looks through what
it is about to send.

* `validate_posZero` — a valid message is still valid when its negative zeros arrive as zeros;
* `decode_unambiguous` — an accepted frame has one reading, within all limits, and the message
  it is can be sent on and arrives as it was.
-/

/-! ### Frames

A frame is checked before it is decoded and again after the message is there: first its bytes, then
its meaning. -/

/-- `types::Envelope::decode`. -/
def decodeEnvelope (raw : List UInt8) : Option Envelope :=
  (parse descriptor recursionLimit .envelope raw).map (Envelope.part recursionLimit).get

/-- `Message::encode_to_vec`. -/
def encodeEnvelope (message : Envelope) : List UInt8 :=
  encodeWire ((Envelope.part recursionLimit).put message)

section

variable (L : Layout) (parseTime : String → Option DateTime)

/-- `decode`. -/
def decode (raw : List UInt8) (direction : Direction) : Except Error Envelope :=
  if maxMessage < raw.length then .error .size
  else
    match scan L raw .envelope 0 maxDecodedSnapshotBytes with
    | .error e => .error e
    | .ok _ =>
      match decodeEnvelope raw with
      | none => .error .malformed
      | some message =>
        match validate L parseTime message direction with
        | .error e => .error e
        | .ok _ => .ok message

/-- `encode`. -/
def encode (message : Envelope) (direction : Direction) : Except Error (List UInt8) :=
  match validate L parseTime message direction with
  | .error e => .error e
  | .ok _ =>
    if maxMessage < (encodeEnvelope message).length then .error .size
    else
      match scan L (encodeEnvelope message) .envelope 0 maxDecodedSnapshotBytes with
      | .error e => .error e
      | .ok _ => .ok (encodeEnvelope message)

end

section

variable {L : Layout} {parseTime : String → Option DateTime}

/-- **What is accepted**: a short frame that the scan takes, that is a message and valid. -/
theorem decode_ok {raw : List UInt8} {direction : Direction} {m : Envelope} :
    decode L parseTime raw direction = .ok m ↔
      raw.length ≤ maxMessage ∧
      (∃ rest, scan L raw .envelope 0 maxDecodedSnapshotBytes = .ok rest) ∧
      decodeEnvelope raw = some m ∧ validate L parseTime m direction = .ok () := by
  unfold decode
  constructor
  · intro h
    split at h
    · cases h
    · rename_i hlen
      split at h
      · cases h
      · rename_i rest hscan
        split at h
        · cases h
        · rename_i message hmessage
          split at h
          · cases h
          · rename_i hvalid
            cases h
            exact ⟨Nat.le_of_not_lt hlen, ⟨rest, hscan⟩, hmessage, hvalid⟩
  · rintro ⟨hlen, ⟨rest, hscan⟩, hmessage, hvalid⟩
    rw [if_neg (Nat.not_lt_of_le hlen), hscan]
    dsimp only
    rw [hmessage]
    dsimp only
    rw [hvalid]

/-- A message that is valid, short and taken by the scan is encoded. -/
theorem encode_eq {direction : Direction} {m : Envelope} {rest : ℕ}
    (hvalid : validate L parseTime m direction = .ok ())
    (hlen : (encodeEnvelope m).length ≤ maxMessage)
    (hscan : scan L (encodeEnvelope m) .envelope 0 maxDecodedSnapshotBytes = .ok rest) :
    encode L parseTime m direction = .ok (encodeEnvelope m) := by
  unfold encode
  rw [hvalid]
  dsimp only
  rw [if_neg (Nat.not_lt_of_le hlen), hscan]

end

/-! ### Negative zeros

A field without presence is not sent when it is zero, and the negative zero counts as one; so it
arrives as the positive one, which passes the same checks. -/

section

/-- A zero is compared like the other zero. -/
theorem posZero_cases (x : F64) :
    x.posZero = x ∨ (x = ⟨Scalar.negativeZero⟩ ∧ x.posZero = ⟨0⟩) := by
  unfold F64.posZero
  by_cases hx : x.bits = Scalar.negativeZero
  · right
    rw [if_pos hx]
    exact ⟨congrArg F64.mk hx, rfl⟩
  · left
    rw [if_neg hx]

/-- The sign of zero does not decide whether a number is finite. -/
@[simp] theorem isFinite_posZero (x : F64) : x.posZero.isFinite = x.isFinite := by
  rcases posZero_cases x with h | ⟨hx, h⟩
  · rw [h]
  · rw [h, hx]
    decide

/-- The sign of zero does not decide whether a number is negative. -/
@[simp] theorem isNegative_posZero (x : F64) : x.posZero.isNegative = x.isNegative := by
  rcases posZero_cases x with h | ⟨hx, h⟩
  · rw [h]
  · rw [h, hx]
    decide

/-- The sign of zero does not decide whether a number is in the unit interval. -/
@[simp] theorem inUnit_posZero (x : F64) : x.posZero.inUnit = x.inUnit := by
  rcases posZero_cases x with h | ⟨hx, h⟩
  · rw [h]
  · rw [h, hx]
    decide

/-- The sign of zero does not decide whether a number is a ratio. -/
@[simp] theorem usageRatio_posZero (x : F64) : usageRatio x.posZero = usageRatio x := by
  simp only [usageRatio, isFinite_posZero, inUnit_posZero]

/-- The signs of zeros do not decide whether a window is valid. -/
@[simp] theorem usageWindow_posZero (w : UsageWindow) : usageWindow w.posZero = usageWindow w := by
  unfold usageWindow
  rw [show w.posZero.usedPct = w.usedPct.posZero from rfl, usageRatio_posZero]
  rfl

/-- The signs of zeros do not decide whether the window of an account is valid. -/
@[simp] theorem usageAccountWindow_posZero (w : Option UsageAccountWindow) :
    usageAccountWindow (w.map UsageAccountWindow.posZero) = usageAccountWindow w := by
  cases w with
  | none => rfl
  | some w =>
    show (usageRatio w.usedPct.posZero && usageTimestamp w.resetsAt) = _
    rw [usageRatio_posZero]
    rfl

/-- The signs of zeros do not decide whether an account is valid. -/
@[simp] theorem usageAccount_posZero (provider : Provider) (before : List UsageAccount)
    (a : UsageAccount) :
    usageAccount provider (before.map UsageAccount.posZero) a.posZero
      = usageAccount provider before a := by
  have hbefore : ((before.map UsageAccount.posZero).any fun prev => prev.number == a.number)
      = before.any fun prev => prev.number == a.number := by
    rw [List.any_map]
    rfl
  simp only [usageAccount, UsageAccount.posZero, usageAccountWindow_posZero]
  rw [← hbefore]
  rfl

variable {parseTime : String → Option DateTime}

/-- The signs of zeros do not decide whether the fields of a snapshot are valid. -/
theorem usageFields_posZero (s : UsageSnapshot) (sources : List UsageSource)
    (rolling weekly : UsageWindow) (status : UsageStatus) :
    usageFields parseTime { s.posZeroFlat with sources } rolling.posZero weekly.posZero status
      = usageFields parseTime s rolling weekly status := by
  have hretry : usageRetry parseTime { s.posZeroFlat with sources } status
      = usageRetry parseTime s status := rfl
  simp only [usageFields, usageWindow_posZero, hretry]
  simp only [UsageSnapshot.posZeroFlat, isFinite_posZero, isNegative_posZero]
  rfl

/-- A source as it arrives. -/
def UsageSource.posZero (source : UsageSource) : UsageSource :=
  { source with snapshot := source.snapshot.map UsageSnapshot.posZeroFlat }

/-- Accounts keep passing their checks. -/
theorem forall_accounts_posZero {provider : Provider} {accounts : List UsageAccount}
    (h : ∀ p ∈ accounts.zipIdx, usageAccount provider (accounts.take p.2) p.1 = true) :
    ∀ p ∈ (accounts.map UsageAccount.posZero).zipIdx,
      usageAccount provider ((accounts.map UsageAccount.posZero).take p.2) p.1 = true := by
  intro p hp
  rw [List.zipIdx_map, List.mem_map] at hp
  obtain ⟨⟨a, i⟩, hmem, rfl⟩ := hp
  have hi := h (a, i) hmem
  rw [← List.map_take]
  exact (usageAccount_posZero provider _ a).trans hi

/-- A child keeps passing its checks. -/
theorem validateUsageChild_posZero {s : UsageSnapshot}
    (h : validateUsageChild parseTime s = .ok ()) :
    s.sources = [] ∧ validateUsageChild parseTime s.posZeroFlat = .ok () := by
  unfold validateUsageChild at h ⊢
  obtain ⟨hchild, hsources, haccounts, provider, rolling, weekly, status, hprovider, hrolling,
    hweekly, hstatus, hfields, hall, hsource⟩ := usageChecks_ok.mp h
  have hnil := hchild rfl
  refine ⟨hnil, usageChecks_ok.mpr ⟨hchild, hsources, ?_, provider, rolling.posZero,
    weekly.posZero, status, hprovider, ?_, ?_, hstatus, ?_, ?_, ?_⟩⟩
  · show (s.accounts.map UsageAccount.posZero).length ≤ Usage.maxAccounts
    rwa [List.length_map]
  · show s.rolling5h.map UsageWindow.posZero = _
    rw [hrolling, Option.map_some]
  · show s.weekly.map UsageWindow.posZero = _
    rw [hweekly, Option.map_some]
  · exact (usageFields_posZero s s.sources rolling weekly status).trans hfields
  · show ∀ p ∈ (s.accounts.map UsageAccount.posZero).zipIdx,
      usageAccount provider ((s.accounts.map UsageAccount.posZero).take p.2) p.1 = true
    exact forall_accounts_posZero hall
  · show ∀ p ∈ s.sources.zipIdx, _
    rw [hnil]
    exact fun p hp => nomatch hp

/-- A snapshot keeps passing its checks. -/
theorem usageChecks_posZero {s : UsageSnapshot}
    (h : usageChecks parseTime (validateUsageChild parseTime) s false = .ok ()) :
    (∀ source ∈ s.sources, ∀ c, source.snapshot = some c → c.sources = []) ∧
      usageChecks parseTime (validateUsageChild parseTime) s.posZero false = .ok () := by
  obtain ⟨-, hsources, haccounts, provider, rolling, weekly, status, hprovider, hrolling,
    hweekly, hstatus, hfields, hall, hsource⟩ := usageChecks_ok.mp h
  refine ⟨fun source hmem c hc => ?_, usageChecks_ok.mpr ⟨Bool.noConfusion, ?_, ?_, provider,
    rolling.posZero, weekly.posZero, status, hprovider, ?_, ?_, hstatus, ?_, ?_, ?_⟩⟩
  · obtain ⟨i, hi, rfl⟩ := List.getElem_of_mem hmem
    have hi' := hsource (s.sources[i], i) (by simp [List.mem_zipIdx_iff_getElem?])
    obtain ⟨-, -, nested, _, hnested, -, -, hinner⟩ := usageSource_ok.mp hi'
    rw [hc] at hnested
    cases hnested
    exact (validateUsageChild_posZero hinner).1
  · show (s.sources.map _).length ≤ 2
    rwa [List.length_map]
  · show (s.accounts.map UsageAccount.posZero).length ≤ Usage.maxAccounts
    rwa [List.length_map]
  · show s.rolling5h.map UsageWindow.posZero = _
    rw [hrolling, Option.map_some]
  · show s.weekly.map UsageWindow.posZero = _
    rw [hweekly, Option.map_some]
  · exact (usageFields_posZero s _ rolling weekly status).trans hfields
  · show ∀ p ∈ (s.accounts.map UsageAccount.posZero).zipIdx,
      usageAccount provider ((s.accounts.map UsageAccount.posZero).take p.2) p.1 = true
    exact forall_accounts_posZero hall
  · intro p hp
    have hp' : p ∈ (s.sources.map UsageSource.posZero).zipIdx := hp
    rw [List.zipIdx_map, List.mem_map] at hp'
    obtain ⟨⟨source, i⟩, hmem, rfl⟩ := hp'
    obtain ⟨hname, hbefore, nested, status, hnested, hstatus, hallowed, hinner⟩ :=
      usageSource_ok.mp (hsource (source, i) hmem)
    refine usageSource_ok.mpr ⟨hname, ?_, nested.posZeroFlat, status, ?_, hstatus, hallowed,
      (validateUsageChild_posZero hinner).2⟩
    · show (((s.sources.map UsageSource.posZero).take i).any
        fun prior => prior.name == source.name) = false
      rw [← List.map_take, List.any_map]
      exact hbefore
    · show source.snapshot.map UsageSnapshot.posZeroFlat = _
      rw [hnested, Option.map_some]

/-- A valid snapshot as it arrives is valid, and is what the generated code makes of it. -/
theorem validateUsage_posZero {s : UsageSnapshot} (h : validateUsage parseTime s = .ok ()) :
    (UsageSnapshot.part recursionLimit).zero s = s.posZero ∧
      validateUsage parseTime s.posZero = .ok () := by
  unfold validateUsage at h ⊢
  rw [allOk_ok] at h ⊢
  simp only [List.mem_cons, List.not_mem_nil, or_false, forall_eq_or_imp, forall_eq] at h ⊢
  obtain ⟨hchecks, hlen⟩ := h
  obtain ⟨hflat, hchecks'⟩ := usageChecks_posZero hchecks
  have hzero : (UsageSnapshot.part recursionLimit).zero s = s.posZero :=
    UsageSnapshot.part_zero hflat 98
  refine ⟨hzero, hchecks', ?_⟩
  rwa [← hzero, (UsageSnapshot.part recursionLimit).put_zero]

/-- A check is passed when it returns nothing. -/
theorem isOk_iff {ε : Type} {x : Except ε Unit} : x.isOk = true ↔ x = .ok () := by
  cases x with
  | error e => simp [Except.isOk, Except.toBool]
  | ok u => simp [Except.isOk, Except.toBool]

variable {L : Layout}

/-- What `validate` decides. -/
theorem validate_ok {m : Envelope} {direction : Direction} :
    validate L parseTime m direction = .ok () ↔
      m.version = version ∧ ∃ body, m.body = some body ∧
        toGateway body = decide (direction = .toGateway) ∧ validBody L parseTime body = true := by
  unfold validate
  constructor
  · intro h
    split at h
    · cases h
    · rename_i hversion
      split at h
      · cases h
      · rename_i body hbody
        split at h
        · cases h
        · rename_i hdirection
          exact ⟨not_not.mp hversion, body, hbody, not_not.mp hdirection, require_ok.mp h⟩
  · rintro ⟨hversion, body, hbody, hdirection, hvalid⟩
    rw [if_neg (not_not.mpr hversion), hbody]
    dsimp only
    rw [if_neg (not_not.mpr hdirection)]
    exact require_ok.mpr hvalid

/-- **A valid message as it arrives is valid**, and is what the generated code makes of it. -/
theorem validate_posZero {m : Envelope} {direction : Direction}
    (h : validate L parseTime m direction = .ok ()) :
    (Envelope.part recursionLimit).zero m = m.posZero ∧
      validate L parseTime m.posZero direction = .ok () := by
  obtain ⟨hversion, body, hbody, hdirection, hvalid⟩ := validate_ok.mp h
  have hsame : EnvelopeBody.zero recursionLimit body = body.posZero ∧
      toGateway body.posZero = toGateway body ∧ validBody L parseTime body.posZero = true := by
    cases body with
    | usage s =>
      obtain ⟨hzero, hok⟩ := validateUsage_posZero (isOk_iff.mp hvalid)
      exact ⟨congrArg EnvelopeBody.usage hzero, rfl, isOk_iff.mpr hok⟩
    | _ => exact ⟨rfl, rfl, hvalid⟩
  obtain ⟨hzero, hgateway, hvalid'⟩ := hsame
  constructor
  · show ({ m with body := m.body.map (EnvelopeBody.zero recursionLimit) } : Envelope)
      = { m with body := m.body.map EnvelopeBody.posZero }
    rw [hbody, Option.map_some, Option.map_some, hzero]
  · refine validate_ok.mpr ⟨hversion, body.posZero, ?_, hgateway.trans hdirection, hvalid'⟩
    show m.body.map EnvelopeBody.posZero = some body.posZero
    rw [hbody, Option.map_some]

end

/-! ### Round trip

What is accepted is a valid message whose encoding the preflight accepts again. -/

section

variable {L : Layout} {parseTime : String → Option DateTime}

/-- The message of an accepted frame in the form in which it is sent on: not longer, and
    accepted again. -/
theorem scan_encodeEnvelope {raw : List UInt8} {rest : ℕ}
    (h : scan L raw .envelope 0 maxDecodedSnapshotBytes = .ok rest) :
    ∃ w, parse descriptor recursionLimit .envelope raw = some w ∧
      Clean descriptor 13 .envelope w ∧ Fits 13 .envelope w ∧
      ∀ m, m = (Envelope.part recursionLimit).get w →
        Normal descriptor 13 .envelope ((Envelope.part recursionLimit).put m) w ∧
        (encodeEnvelope m).length ≤ raw.length ∧
        (∃ rest', scan L (encodeEnvelope m) .envelope 0 maxDecodedSnapshotBytes = .ok rest') ∧
        decodeEnvelope (encodeEnvelope m) = some ((Envelope.part recursionLimit).zero m) := by
  have hlevels : 12 ≤ recursionLimit := by decide
  obtain ⟨w, hparse, hclean, hfits, hcost, hlen⟩ :=
    scanLevels_sound hlevels .envelope raw maxDecodedSnapshotBytes rest h
  refine ⟨w, hparse, hclean, hfits, ?_⟩
  rintro m rfl
  have hnormal := (Envelope.covers recursionLimit).normal (by decide) hclean
  have hclean' := hnormal.clean hclean
  obtain ⟨hfits', hcost'⟩ := Fits.normal (L := L) hfits hnormal
  refine ⟨hnormal, le_trans hnormal.length_le hlen, ?_, ?_⟩
  · refine ⟨_, scanLevels_complete 13 .envelope _ maxDecodedSnapshotBytes hclean' hfits' ?_⟩
    exact le_trans hcost' (by omega)
  · have hback : parse descriptor recursionLimit .envelope
        (encodeEnvelope ((Envelope.part recursionLimit).get w)) = some _ :=
      parse_encodeWire hlevels hclean'
    unfold decodeEnvelope
    rw [hback, Option.map_some, Part.get_put]

/-- **An accepted frame has one reading.**  It is a tree `w` in which every field is known, no
    field that is not repeated and no `oneof` occurs twice, every number is in the range of
    its type (`Clean`) and no text, blob or list exceeds its row of the table (`Fits`), at
    every level; the message has just these fields, each with the value that was on the wire
    (`Normal`); and it can be sent on and arrives as it is, up to the sign of zeros. -/
theorem decode_unambiguous {raw : List UInt8} {direction : Direction} {m : Envelope}
    (h : decode L parseTime raw direction = .ok m) :
    ∃ w, parse descriptor recursionLimit .envelope raw = some w ∧
      m = (Envelope.part recursionLimit).get w ∧
      Clean descriptor 13 .envelope w ∧ Fits 13 .envelope w ∧
      Normal descriptor 13 .envelope ((Envelope.part recursionLimit).put m) w ∧
      ∃ raw', encode L parseTime m direction = .ok raw' ∧
        decode L parseTime raw' direction = .ok m.posZero := by
  obtain ⟨hlen, ⟨rest, hscan⟩, hmessage, hvalid⟩ := decode_ok.mp h
  obtain ⟨w, hparse, hclean, hfits, hsent⟩ := scan_encodeEnvelope hscan
  have hm : m = (Envelope.part recursionLimit).get w := by
    unfold decodeEnvelope at hmessage
    rw [hparse, Option.map_some] at hmessage
    exact (Option.some.inj hmessage).symm
  obtain ⟨hnormal, hlen', ⟨rest', hscan'⟩, hdecode⟩ := hsent m hm
  obtain ⟨hzero, hvalid'⟩ := validate_posZero hvalid
  have hsize : (encodeEnvelope m).length ≤ maxMessage := le_trans hlen' hlen
  refine ⟨w, hparse, hm, hclean, hfits, hnormal, encodeEnvelope m,
    encode_eq hvalid hsize hscan', ?_⟩
  rw [hzero] at hdecode
  exact decode_ok.mpr ⟨hsize, ⟨rest', hscan'⟩, hdecode, hvalid'⟩

end

namespace FrameExample

/-- Sizes and capacities that no check of the frame below depends on. -/
def layout : Layout :=
  { sizeOf := fun _ => 64, sizeOfString := 24, stringCapacity := fun n => n,
    vecCapacity := fun n => n }

/-- An acknowledgement of five bytes for the view `a`, its fields in reverse order and its
    version in two bytes where one would do. -/
def frame : List UInt8 := [0x9A, 0x01, 0x05, 0x10, 0x05, 0x0A, 0x01, 0x61, 0x08, 0x82, 0x00]

/-- The frame is accepted, so its message is sent on and arrives as it is. -/
theorem frame_unambiguous :
    ∃ m, decode layout (fun _ => none) frame .toHome = .ok m ∧
      ∃ raw', encode layout (fun _ => none) m .toHome = .ok raw' ∧
        decode layout (fun _ => none) raw' .toHome = .ok m.posZero := by
  have hok : (decode layout (fun _ => none) frame .toHome).isOk = true := by decide
  cases h : decode layout (fun _ => none) frame .toHome with
  | error e => rw [h] at hok; cases hok
  | ok m =>
    obtain ⟨-, -, -, -, -, -, raw', hencode, hdecode⟩ := decode_unambiguous h
    exact ⟨m, rfl, raw', hencode, hdecode⟩

end FrameExample

end Hmux.Protocol
