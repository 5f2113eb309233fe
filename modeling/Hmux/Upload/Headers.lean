import Hmux.Gateway.Hub
import Hmux.Upload.Stage

namespace Hmux.Upload

open Hmux.Lib Hmux.Protocol

/-!
# Three checks of one header

The Gateway checks the header it made, the protocol checks it on both ends of the wire, and Home
checks it before it makes a directory.  `HeaderFacts` is what they have in common; each check is
proved from it.

* `decodeStart_ok` — what `decodeStart` accepts;
* `complete_facts` — the header with an id of the Hub;
* `HeaderFacts.gateway`, `HeaderFacts.protobuf`, `HeaderFacts.home` — it passes all checks;
* `HeaderFacts.total` — its files have as many bytes as it says.
-/

/-- What a header of an upload that has its id satisfies. -/
structure HeaderFacts (h : Pb.UploadHeader) : Prop where
  version : h.protocolVersion = 1
  id : validId h.requestId = true
  session : ∃ s, h.session = some s ∧ 0 < s.createdAt ∧ dollarDigits 31 s.id = true
  some : 1 ≤ h.fileCount
  few : h.fileCount ≤ 16
  count : h.fileCount.toNat = h.files.length
  nonempty : 1 ≤ h.totalBytes
  fits : h.totalBytes ≤ maxTotalBytes
  files : ∀ p ∈ h.files.zipIdx, validFile p.2 p.1 = true
  sum : sumSizes h.files = .some h.totalBytes

section
variable {h : Pb.UploadHeader} {S : Serde} {raw : List UInt8} {csrf : String}

/-- The checks of `validHeader` that are not about the id. -/
theorem validHeader_facts {requireRequestId : Bool} (hv : validHeader h requireRequestId = true)
    {id : String} (hid : validId id = true) : HeaderFacts { h with requestId := id } := by
  simp only [validHeader, Bool.and_eq_true, decide_eq_true_eq, beq_iff_eq, List.all_eq_true] at hv
  obtain ⟨⟨⟨⟨⟨⟨⟨⟨⟨hversion, -⟩, hsession⟩, hsome⟩, hfew⟩, hcount⟩, hnonempty⟩, hfits⟩, hfiles⟩,
    hsum⟩ := hv
  refine ⟨hversion, hid, ?_, hsome, hfew, hcount, hnonempty, hfits, hfiles, hsum⟩
  show ∃ s, h.session = some s ∧ 0 < s.createdAt ∧ dollarDigits 31 s.id = true
  cases hs : h.session with
  | none => rw [hs] at hsession; cases hsession
  | some s =>
    rw [hs] at hsession
    obtain ⟨hcreated, hdigits⟩ := Bool.and_eq_true_iff.mp hsession
    exact ⟨s, rfl, of_decide_eq_true hcreated, hdigits⟩

/-- A header that has its id passes the Gateway's check, with or without the demand for the id. -/
theorem HeaderFacts.gateway (hf : HeaderFacts h) (requireRequestId : Bool) :
    validHeader h requireRequestId = true := by
  obtain ⟨s, hs, hcreated, hdigits⟩ := hf.session
  have hid : (if requireRequestId then validId h.requestId
      else h.requestId == "" || validId h.requestId) = true := by
    rw [hf.id, Bool.or_true, ite_self]
  have hsession : h.session.any validSession = true := by
    rw [hs]
    exact Bool.and_eq_true_iff.mpr ⟨decide_eq_true hcreated, hdigits⟩
  simp only [validHeader, Bool.and_eq_true, decide_eq_true_eq, beq_iff_eq, List.all_eq_true]
  exact ⟨⟨⟨⟨⟨⟨⟨⟨⟨hf.version, hid⟩, hsession⟩, hf.some⟩, hf.few⟩, hf.count⟩, hf.nonempty⟩,
    hf.fits⟩, hf.files⟩, hf.sum⟩

/-- The header an accepted start leads to passed the Gateway's check, and its session id is a
    short one. -/
theorem decodeStart_ok (hd : decodeStart S raw csrf = .ok h) :
    validHeader h false = true ∧ ∃ s, h.session = some s ∧ dollarDigits 12 s.id = true := by
  unfold decodeStart at hd
  obtain ⟨start, -, hd⟩ := bind_ok hd
  obtain ⟨-, -, hd⟩ := bind_ok hd
  obtain ⟨session, -, hd⟩ := bind_ok hd
  obtain ⟨⟨⟩, hid, hd⟩ := bind_ok hd
  obtain ⟨raws, -, hd⟩ := bind_ok hd
  obtain ⟨total, -, hd⟩ := bind_ok hd
  obtain ⟨⟨⟩, hvalid, hd⟩ := bind_ok hd
  cases hd
  refine ⟨require_ok.mp hvalid, _, rfl, ?_⟩
  have hid := require_ok.mp hid
  cases hs : session.id with
  | none => rw [hs] at hid; cases hid
  | some id =>
    rw [hs] at hid
    exact hid

/-- Hexadecimal digits are what the Gateway takes for them. -/
theorem lowerHex_hexChars {chars : List Char} {n : ℕ} (hlen : chars.length = n)
    (hchars : ∀ c ∈ chars, ∃ d < 16, c = Nat.digitChar d) :
    lowerHex n (String.ofList chars) = true := by
  have hdigit : ∀ d : Fin 16, (Nat.digitChar d).utf8Size = 1 ∧
      isLowerHex (Nat.digitChar d).val.toUInt8 = true := by
    decide
  have hbytes : bytes (String.ofList chars) = chars.map fun c => c.val.toUInt8 := by
    refine bytes_ofList fun c hc => ?_
    obtain ⟨d, hd, rfl⟩ := hchars c hc
    exact (hdigit ⟨d, hd⟩).1
  rw [lowerHex, len, hbytes, List.length_map, hlen, Bool.and_eq_true, decide_eq_true_eq]
  refine ⟨rfl, List.all_eq_true.mpr fun b hb => ?_⟩
  obtain ⟨c, hc, rfl⟩ := List.mem_map.mp hb
  obtain ⟨d, hd, rfl⟩ := hchars c hc
  exact (hdigit ⟨d, hd⟩).2

/-- Two hexadecimal digits for each byte. -/
theorem hexBytes_valid (l : List UInt8) :
    lowerHex (2 * l.length) (String.ofList (hexOf l)) = true :=
  lowerHex_hexChars (length_hexOf l) fun _ hc => mem_hexOf hc

theorem hexDigest_valid (digest : Vector UInt8 32) : lowerHex 64 (hexDigest digest) = true := by
  have hvalid := hexBytes_valid digest.toList
  rw [Vector.length_toList] at hvalid
  exact hvalid

theorem newStageId_valid (entropy : Vector UInt8 16) :
    validId (Home.newStageId entropy) = true := by
  have hvalid := hexBytes_valid entropy.toList
  rw [Vector.length_toList] at hvalid
  exact hvalid

/-- The ids of the Hub are what the Gateway takes for an id. -/
theorem idText_valid (generation next : UInt64) :
    validId (Gateway.Hub.idText generation next) = true := by
  refine lowerHex_hexChars ?_ ?_
  · rw [List.length_append, hexText_length, hexText_length]
  · intro c hc
    rcases List.mem_append.mp hc with hc | hc
    · exact mem_hexText hc
    · exact mem_hexText hc

/-- The header with the id the Hub gave to the upload. -/
def complete (h : Pb.UploadHeader) (generation next : UInt64) : Pb.UploadHeader :=
  { h with requestId := Gateway.Hub.idText generation next }

theorem complete_facts (hd : decodeStart S raw csrf = .ok h) (generation next : UInt64) :
    HeaderFacts (complete h generation next) :=
  validHeader_facts (decodeStart_ok hd).1 (idText_valid generation next)

/-! ### The other two checks

They ask for less than the facts say, each in its own words. -/

theorem HeaderFacts.protocolId (hf : HeaderFacts h) : Protocol.validId h.requestId = true := by
  have hlen : len h.requestId = 32 := of_decide_eq_true (Bool.and_eq_true_iff.mp hf.id).1
  rw [Protocol.validId, Bool.and_eq_true, decide_eq_true_eq, decide_eq_true_eq]
  refine ⟨fun hempty => ?_, by omega⟩
  rw [hempty] at hlen
  cases hlen

/-- `validUploadHeader` makes the same checks. -/
theorem HeaderFacts.protobuf (hf : HeaderFacts h) : validUploadHeader h = true := by
  obtain ⟨s, hs, hcreated, hdigits⟩ := hf.session
  obtain ⟨hlen, hhex⟩ := Bool.and_eq_true_iff.mp hf.id
  have hsession : Protocol.validSession 31 h.session = true := by
    rw [hs]
    simp only [dollarDigits, Bool.and_eq_true] at hdigits
    obtain ⟨⟨⟨hhead, hsome⟩, hfew⟩, hall⟩ := hdigits
    simp only [Protocol.validSession, Option.any_some, Bool.and_eq_true]
    exact ⟨⟨⟨⟨decide_eq_true hcreated, hhead⟩, hsome⟩, hfew⟩, hall⟩
  simp only [validUploadHeader, Bool.and_eq_true, decide_eq_true_eq, beq_iff_eq, List.all_eq_true]
  exact ⟨⟨⟨⟨⟨⟨⟨⟨⟨⟨hf.version, of_decide_eq_true hlen⟩, List.all_eq_true.mp hhex⟩, hsession⟩,
    hf.some⟩, hf.few⟩, hf.count⟩, hf.nonempty⟩, hf.fits⟩, hf.files⟩, hf.sum⟩

/-- The sum Home makes on the way is the sum of the sizes. -/
theorem foldlM_validateFile {files : List Pb.FileHeader} {k : ℕ} {total : Int64}
    (hfiles : ∀ p ∈ files.zipIdx k, validFile p.2 p.1 = true) :
    (files.zipIdx k).foldlM Home.validateFile total =
      okOr (files.foldlM (fun sum f => checkedAdd sum f.size) total) .header := by
  induction files generalizing k total with
  | nil => rfl
  | cons f files ih =>
    have hf := hfiles (f, k) List.mem_cons_self
    have hrest : ∀ p ∈ files.zipIdx (k + 1), validFile p.2 p.1 = true :=
      fun p hp => hfiles p (List.mem_cons_of_mem _ hp)
    simp only [validFile, Bool.and_eq_true, decide_eq_true_eq] at hf
    obtain ⟨⟨⟨⟨hindex, hmin⟩, hmax⟩, hext⟩, hchars⟩ := hf
    have hpass : Home.validateFile total (f, k) = okOr (checkedAdd total f.size) .header := by
      unfold Home.validateFile
      rw [if_neg]
      rintro (hne | hne | hne | hne)
      · exact hne hindex
      · exact hne ⟨hmin, hmax⟩
      · exact absurd hext (Nat.not_le.mpr hne)
      · exact hne.2 hchars
    rw [List.zipIdx_cons, List.foldlM_cons, List.foldlM_cons, hpass]
    cases hadd : checkedAdd total f.size with
    | none => rfl
    | some sum => exact ih hrest

theorem HeaderFacts.home (hf : HeaderFacts h) : Home.validateHeader h = .ok () := by
  obtain ⟨s, hs, hcreated, hdigits⟩ := hf.session
  have hzero : h.fileCount ≠ 0 := by
    intro hzero
    have hsome := hf.some
    rw [hzero] at hsome
    cases hsome
  have hfirst : (h.protocolVersion = 1 && Home.validHex h.requestId 32 && h.fileCount ≠ 0 &&
      h.fileCount ≤ 16 && h.fileCount.toNat = h.files.length && 1 ≤ h.totalBytes &&
      h.totalBytes ≤ Home.requestMax : Bool) = true := by
    simp only [Bool.and_eq_true, decide_eq_true_eq]
    exact ⟨⟨⟨⟨⟨⟨hf.version, hf.id⟩, hzero⟩, hf.few⟩, hf.count⟩, hf.nonempty⟩, hf.fits⟩
  have hsecond : (1 ≤ s.createdAt && dollarDigits 31 s.id : Bool) = true :=
    Bool.and_eq_true_iff.mpr ⟨decide_eq_true hcreated, hdigits⟩
  have hloop : h.files.zipIdx.foldlM Home.validateFile 0 = .ok h.totalBytes := by
    rw [foldlM_validateFile hf.files]
    exact okOr_ok.mpr hf.sum
  unfold Home.validateHeader
  rw [ok_bind (require_ok.mpr hfirst), ok_bind (okOr_ok.mpr hs), ok_bind (require_ok.mpr hsecond),
    ok_bind hloop]
  exact require_ok.mpr (decide_eq_true rfl)

/-! ### Sizes

The sum of the sizes is positive and does not overflow. -/

theorem checkedAdd_toInt {a b c : Int64} (hadd : checkedAdd a b = some c) :
    c.toInt = a.toInt + b.toInt := by
  unfold checkedAdd at hadd
  split at hadd
  · rename_i hrange
    obtain rfl := Option.some.inj hadd
    rw [Int64.toInt_add, Int.bmod_eq_of_le (by omega) (by omega)]
  · cases hadd

theorem foldlM_checkedAdd {files : List Pb.FileHeader} {sum total : Int64}
    (hsum : files.foldlM (fun sum f => checkedAdd sum f.size) sum = some total) :
    total.toInt = sum.toInt + (files.map fun f => f.size.toInt).sum := by
  induction files generalizing sum with
  | nil =>
    obtain rfl := Option.some.inj hsum
    simp
  | cons f files ih =>
    rw [List.foldlM_cons] at hsum
    cases hadd : checkedAdd sum f.size with
    | none => rw [hadd] at hsum; cases hsum
    | some next =>
      rw [hadd] at hsum
      rw [ih hsum, checkedAdd_toInt hadd, List.map_cons, List.sum_cons]
      omega

/-- Every file has at least one byte. -/
theorem HeaderFacts.size_pos (hf : HeaderFacts h) : ∀ f ∈ h.files, 0 < f.size.toInt := by
  intro f hmem
  obtain ⟨k, hk⟩ := List.mem_iff_getElem?.mp hmem
  have hp : (f, k) ∈ h.files.zipIdx := List.mem_zipIdx_iff_getElem?.mpr hk
  have hvalid := hf.files _ hp
  simp only [validFile, Bool.and_eq_true, decide_eq_true_eq] at hvalid
  have hmin : (1 : Int64).toInt ≤ f.size.toInt := Int64.le_iff_toInt_le.mp hvalid.1.1.1.2
  have hone : (1 : Int64).toInt = 1 := rfl
  omega

/-- The files of a header have as many bytes as the header says. -/
theorem HeaderFacts.total (hf : HeaderFacts h) :
    (h.files.map fileSize).sum = h.totalBytes.toInt.toNat := by
  have hsum := foldlM_checkedAdd hf.sum
  have hzero : (0 : Int64).toInt = 0 := rfl
  rw [hzero, Int.zero_add] at hsum
  have hcast : ∀ files : List Pb.FileHeader, (∀ f ∈ files, 0 < f.size.toInt) →
      (((files.map fileSize).sum : ℕ) : ℤ) = (files.map fun f => f.size.toInt).sum := by
    intro files hpos
    induction files with
    | nil => rfl
    | cons f files ih =>
      have hf := hpos f List.mem_cons_self
      have ih := ih fun g hg => hpos g (List.mem_cons_of_mem _ hg)
      rw [List.map_cons, List.map_cons, List.sum_cons, List.sum_cons, Nat.cast_add, ih]
      unfold fileSize
      omega
  rw [hsum, ← hcast h.files hf.size_pos, Int.toNat_natCast]

end

end Hmux.Upload
