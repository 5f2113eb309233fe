import Hmux.Lib.Json.Reader
import Hmux.Upload.Ranges

namespace Hmux.Upload

open Hmux.Lib Hmux.Protocol

/-!
# Both ends account for an upload alike

The whole way of an upload: the browser's first frame, the header with the Hub's id, the chunks on
both ends and the answer of Home.

* `validPath_final` — the Gateway takes the paths Home makes;
* `commitTyped_late`, `commitTyped_inTime` — what `commitTyped` does when nothing interferes;
* `uploads_agree` — the statement about a whole upload.
-/

/-! ### Paths

The names that Home makes have no part and no character that the Gateway refuses. -/

namespace Home

variable {h : Pb.UploadHeader} {i : ℕ} {f : Pb.FileHeader}

/-- The Gateway expects the name Home gives. -/
theorem fileName_eq (hfile : h.files[i]? = some f) :
    fileName h i = "file-" ++ String.ofList (pad4 (i + 1)) ++
      (if f.extension = "" then "" else "." ++ f.extension) := by
  unfold fileName
  simp only [hfile, Option.map_some, Option.getD_some]
  split
  · rw [String.append_empty]
  · rw [String.append_assoc, String.append_assoc]

/-- A file name has no slash. -/
theorem slash_notMem_fileName (hfile : h.files[i]? = some f) (hi : i < 16)
    (hext : ∀ b ∈ bytes f.extension, (isAsciiLowercase b || isAsciiDigit b) = true) :
    47 ∉ bytes (fileName h i) := by
  have hnumber : ∀ i : Fin 16, 47 ∉ bytes (String.ofList (pad4 (i + 1))) := by decide
  have hletters : 47 ∉ bytes f.extension := by
    intro hmem
    have hb := hext 47 hmem
    revert hb
    decide
  rw [fileName_eq hfile, bytes_append, bytes_append, List.mem_append, List.mem_append]
  rintro ((hmem | hmem) | hmem)
  · revert hmem
    decide
  · exact hnumber ⟨i, hi⟩ hmem
  · split at hmem
    · cases hmem
    · rw [bytes_append, List.mem_append] at hmem
      rcases hmem with hmem | hmem
      · revert hmem
        decide
      · exact hletters hmem

/-- A file name has a dash. -/
theorem dash_mem_fileName (hfile : h.files[i]? = some f) : 45 ∈ bytes (fileName h i) := by
  rw [fileName_eq hfile, bytes_append, bytes_append, List.append_assoc]
  exact List.mem_append_left _ (by decide)

/-- The name of a stage has no slash. -/
theorem slash_notMem_finalName {expiry : Int64} {stageId : String} (hid : validId stageId = true) :
    47 ∉ bytes (finalNameOf expiry stageId) := by
  rw [finalNameOf, bytes_append, bytes_append, List.mem_append, List.mem_append]
  rintro ((hmem | hmem) | hmem)
  · have hnumeral := Json.Compact.isNumeral_decimal expiry.toInt 47 hmem
    revert hnumeral
    decide
  · revert hmem
    decide
  · have hhex := List.all_eq_true.mp (Bool.and_eq_true_iff.mp hid).2 47 hmem
    revert hhex
    decide

/-- The name of a stage has a dash. -/
theorem dash_mem_finalName (expiry : Int64) (stageId : String) :
    45 ∈ bytes (finalNameOf expiry stageId) := by
  rw [finalNameOf, bytes_append, bytes_append]
  exact List.mem_append_left _ (List.mem_append_right _ (by decide))

/-- A part with a dash is neither empty nor made of dots. -/
theorem badPart_of_dash {part : List UInt8} (hdash : 45 ∈ part) : badPart part = false := by
  unfold badPart
  cases hpart : (part == [] || part == [46] || part == [46, 46]) with
  | false => rfl
  | true =>
    simp only [Bool.or_eq_true, beq_iff_eq] at hpart
    rcases hpart with (rfl | rfl) | rfl <;> simp at hdash

/-- Bytes above 27 are no controls, as far as the names go. -/
theorem isControl_of_lt {b : UInt8} (hb : 27 < b) : isControl b = false := by
  cases hcontrol : isControl b with
  | false => rfl
  | true =>
    simp only [isControl, Bool.or_eq_true, beq_iff_eq] at hcontrol
    rcases hcontrol with (((rfl | rfl) | rfl) | rfl) | rfl <;> exact absurd hb (by decide)

/-- Bytes of a text that all lie above the control characters. -/
theorem any_isControl {text : List UInt8} (htext : ∀ b ∈ text, 27 < b) :
    text.any isControl = false :=
  List.any_eq_false.mpr fun b hb => Bool.eq_false_iff.mp (isControl_of_lt (htext b hb))

/-- No byte of a path that Home makes is a control character. -/
theorem Stage.finalPath_clean {root : Root} {expiry : Int64} {stageId : String}
    (hid : validId stageId = true) (hfile : h.files[i]? = some f) (hi : i < 16)
    (hext : ∀ b ∈ bytes f.extension, (isAsciiLowercase b || isAsciiDigit b) = true) :
    (bytes (Stage.finalPath root h (finalNameOf expiry stageId) i)).any isControl = false := by
  -- every part is printable: digits, lower-case letters and the bar are above the control bytes
  have hfrom : ∀ {a b : UInt8}, 27 < a → a ≤ b → 27 < b := UInt8.lt_of_lt_of_le
  have hdigit : ∀ b, isAsciiDigit b = true → 27 < b := by
    intro b hb
    simp only [isAsciiDigit, Bool.and_eq_true, decide_eq_true_eq] at hb
    exact hfrom (by decide) hb.1
  have hletter : ∀ b, isAsciiLowercase b = true → 27 < b := by
    intro b hb
    simp only [isAsciiLowercase, Bool.and_eq_true, decide_eq_true_eq] at hb
    exact hfrom (by decide) hb.1
  have hbar : (bytes "/").any isControl = false := by decide
  have hroot : (bytes root.path).any isControl = false := by
    have hchecked := root.checked
    simp only [checkedRoot, Bool.and_eq_true, Bool.not_eq_true'] at hchecked
    exact hchecked.2
  -- the directory is `TIME-ID`, with the seconds in decimal and the id in lower-case hex
  have hname : (bytes (finalNameOf expiry stageId)).any isControl = false := by
    rw [finalNameOf, bytes_append, bytes_append, List.any_append, List.any_append,
      Bool.or_eq_false_iff, Bool.or_eq_false_iff]
    refine ⟨⟨any_isControl fun b hb => ?_, by decide⟩, any_isControl fun b hb => ?_⟩
    · have hnumeral := Json.Compact.isNumeral_decimal expiry.toInt b hb
      simp only [Json.Compact.isNumeral, Bool.or_eq_true, Bool.and_eq_true,
        decide_eq_true_eq] at hnumeral
      rcases hnumeral with ⟨hlow, -⟩ | rfl
      · exact hfrom (by decide) hlow
      · decide
    · have hhex := List.all_eq_true.mp (Bool.and_eq_true_iff.mp hid).2 b hb
      simp only [isLowerHex, Bool.or_eq_true, Bool.and_eq_true, decide_eq_true_eq] at hhex
      rcases hhex with hnumber | ⟨hlow, -⟩
      · exact hdigit b hnumber
      · exact hfrom (by decide) hlow
  have hnumber : ∀ i : Fin 16, (bytes (String.ofList (pad4 (i + 1)))).any isControl = false := by
    decide
  -- the file is numbered, and its extension has letters and digits only
  have hfileName : (bytes (fileName h i)).any isControl = false := by
    rw [fileName_eq hfile, bytes_append, bytes_append, List.any_append, List.any_append,
      Bool.or_eq_false_iff, Bool.or_eq_false_iff]
    refine ⟨⟨by decide, hnumber ⟨i, hi⟩⟩, ?_⟩
    split
    · decide
    · rw [bytes_append, List.any_append, Bool.or_eq_false_iff]
      refine ⟨by decide, any_isControl fun b hb => ?_⟩
      exact (Bool.or_eq_true_iff.mp (hext b hb)).elim (hletter b) (hdigit b)
  simp only [Stage.finalPath, bytes_append, List.any_append, hroot, hbar, hname, hfileName,
    Bool.or_self]

end Home

/-- A path of the right shape, whatever stands before the directory of all stages. -/
theorem validPath_of_bytes {path stageDir «extension» : String} {i : ℕ} {r name : List UInt8}
    (hpath : bytes path = 47 :: (r ++ 47 :: (bytes stageDir ++ 47 :: name)))
    (hexpected : bytes ("file-" ++ String.ofList (pad4 (i + 1)) ++
      (if «extension» = "" then "" else "." ++ «extension»)) = name)
    (hlen : len path ≤ 4096) (hclean : (bytes path).any isControl = false)
    (hparts : (r.splitOn 47).any badPart = false)
    (hroot : (r.splitOn 47).reverse[0]? = some (bytes "staged-files-v1"))
    (hdir : 47 ∉ bytes stageDir) (hdirGood : badPart (bytes stageDir) = false)
    (hname : 47 ∉ name) (hnameGood : badPart name = false) :
    validPath path stageDir i «extension» = true := by
  -- the path ends in the directory and the name, since neither of them has a bar
  have hsplit : (r ++ 47 :: (bytes stageDir ++ 47 :: name)).splitOn 47
      = r.splitOn 47 ++ [bytes stageDir, name] := by
    rw [List.splitOn_append_cons_self, List.splitOn_append_cons_self_of_not_mem hdir,
      List.splitOn_eq_singleton hname]
  have hall : (bytes path).splitOn 47 = [] :: (r.splitOn 47 ++ [bytes stageDir, name]) := by
    rw [hpath, ← hsplit]
    exact List.splitOn_append_cons_self_of_not_mem List.not_mem_nil _
  -- it is absolute, short and without control bytes
  have hfirst : ¬(path = "" ∨ 4096 < len path ∨ (bytes path).head? ≠ some 47 ∨
      (bytes path).any isControl = true) := by
    rintro (hempty | hlong | hrel | hcontrol)
    · rw [← bytes_eq_nil, hpath] at hempty
      cases hempty
    · omega
    · rw [hpath] at hrel
      exact hrel rfl
    · rw [hclean] at hcontrol
      cases hcontrol
  have hgood : ¬((bytes path).tail.splitOn 47).any badPart = true := by
    rw [hpath, List.tail_cons, hsplit, List.any_append, hparts, List.any_cons, List.any_cons,
      hdirGood, hnameGood]
    decide
  -- the root's last part stands where the third part from the end is looked for
  have hthird : ([] :: (r.splitOn 47 ++ [bytes stageDir, name])).reverse[2]?
      = some (bytes "staged-files-v1") := by
    rw [← hroot, List.reverse_cons, List.reverse_append]
    cases hrev : (r.splitOn 47).reverse with
    | nil => exact absurd (List.reverse_eq_nil_iff.mp hrev) (List.splitOn_ne_nil 47 r)
    | cons last before => rfl
  unfold validPath
  rw [if_neg hfirst, if_neg hgood]
  simp only [hall, hexpected, hthird]
  simp

/-- **The Gateway takes the paths Home makes.** -/
theorem validPath_final {h : Pb.UploadHeader} {i : ℕ} {f : Pb.FileHeader} {root : Home.Root}
    {expiry : Int64} {stageId path : String} (hfile : h.files[i]? = some f) (hi : i < 16)
    (hext : ∀ b ∈ bytes f.extension, (isAsciiLowercase b || isAsciiDigit b) = true)
    (hid : validId stageId = true)
    (hpath : path = Home.Stage.finalPath root h (Home.finalNameOf expiry stageId) i)
    (hlen : len path ≤ 4096) (hclean : (bytes path).any isControl = false) :
    validPath path (Home.finalNameOf expiry stageId) i f.extension = true := by
  have hchecked := root.checked
  simp only [Home.checkedRoot, Bool.and_eq_true, Bool.not_eq_true', beq_iff_eq] at hchecked
  obtain ⟨⟨⟨⟨hslash, hparts⟩, hroot⟩, -⟩, -⟩ := hchecked
  obtain ⟨r, hr⟩ : ∃ r, bytes root.path = 47 :: r := by
    cases hb : bytes root.path with
    | nil => rw [hb] at hslash; cases hslash
    | cons b r =>
      rw [hb] at hslash
      obtain rfl := Option.some.inj hslash
      exact ⟨r, rfl⟩
  have hsplitRoot : (bytes root.path).splitOn 47 = [] :: r.splitOn 47 := by
    rw [hr]
    exact List.splitOn_append_cons_self_of_not_mem List.not_mem_nil r
  rw [hsplitRoot] at hparts hroot
  have hlast : (r.splitOn 47).reverse[0]? = some (bytes "staged-files-v1") := by
    rw [← hroot, List.reverse_cons]
    cases hrev : (r.splitOn 47).reverse with
    | nil => exact absurd (List.reverse_eq_nil_iff.mp hrev) (List.splitOn_ne_nil 47 r)
    | cons last before => rfl
  have hbytes : bytes path
      = 47 :: (r ++ 47 :: (bytes (Home.finalNameOf expiry stageId) ++
        47 :: bytes (Home.fileName h i))) := by
    have hbar : bytes "/" = [47] := by decide
    rw [hpath, Home.Stage.finalPath, bytes_append, bytes_append, bytes_append, bytes_append, hbar,
      hr]
    simp only [List.append_assoc, List.cons_append, List.nil_append]
  exact validPath_of_bytes hbytes (by rw [Home.fileName_eq hfile]) hlen hclean hparts hlast
    (Home.slash_notMem_finalName hid) (Home.badPart_of_dash
      (Home.dash_mem_finalName expiry stageId))
    (Home.slash_notMem_fileName hfile hi hext) (Home.badPart_of_dash (Home.dash_mem_fileName hfile))

/-! ### The end of an upload

A commit checks the time, then the paths, then the length of the manifest, and publishes only after
all of them; each of its errors has one of these causes when nothing interferes. -/

namespace Home.Stage

variable {sha256 : List UInt8 → Vector UInt8 32} {s : Stage} {h : Pb.UploadHeader}
  {seen : List UInt8}

/-- When all bytes have come, every file is full and has its hash. -/
theorem Sound.complete (hs : Sound sha256 s h seen) (hf : HeaderFacts h)
    (hall : seen.length = (sizes h).sum) :
    s.current = none ∧ s.hashes.length = h.files.length := by
  have hlen : (sizes h).length = h.files.length := List.length_map _
  have hpos : ∀ k < h.files.length, offset (sizes h) k < offset (sizes h) (k + 1) := by
    intro k hk
    obtain ⟨f, hfile⟩ : ∃ f, h.files[k]? = some f := ⟨_, List.getElem?_eq_getElem hk⟩
    have hn : (sizes h)[k]? = some (fileSize f) := by
      rw [sizes, List.getElem?_map, hfile]
      rfl
    have hsize := hf.size_pos f (List.mem_of_getElem? hfile)
    rw [offset_succ hn]
    unfold fileSize
    omega
  have hend : offset (sizes h) h.files.length = (sizes h).sum := by rw [← hlen, offset_length]
  cases hcurrent : s.current with
  | none =>
    refine ⟨rfl, Nat.le_antisymm hs.few (Nat.le_of_not_lt fun hlt => ?_)⟩
    have hstart := hs.closed hcurrent
    have hnext := hpos _ hlt
    have hmono : offset (sizes h) (s.hashes.length + 1) ≤ offset (sizes h) h.files.length :=
      offset_mono hlt
    omega
  | some c =>
    obtain ⟨-, -, -, hopen⟩ := hs.opened c hcurrent
    have hmore : ∀ k, offset (sizes h) k ≤ (sizes h).sum := by
      intro k
      rw [← hend]
      by_cases hk : k ≤ h.files.length
      · exact offset_mono hk
      · rw [offset, offset, List.take_of_length_le (by omega), List.take_of_length_le (by omega)]
    have hbound := hmore (s.hashes.length + 1)
    omega

/-- The manifest is a new file. -/
theorem Sound.manifest_new (hs : Sound sha256 s h seen) : "manifest.json" ∉ s.dir.map Prod.fst := by
  rw [hs.dir]
  intro hmem
  obtain ⟨e, he, hname⟩ := List.mem_map.mp hmem
  obtain ⟨i, -, rfl⟩ := List.mem_map.mp he
  obtain ⟨tail, htail⟩ := fileName_toList h i
  have hlist : (fileName h i).toList = "manifest.json".toList := congrArg String.toList hname
  rw [htail] at hlist
  have hhead := congrArg List.head? hlist
  revert hhead
  simp

/-- What a commit that goes well leaves. -/
def published (s : Stage) (name : String) (manifest : List UInt8) : Stage :=
  { s with dir := s.dir ++ [("manifest.json", manifest)], finalName := some name }

/-- Nothing keeps the directory from its final name. -/
theorem Sound.publish (hs : Sound sha256 s h seen) (name : String) (manifest : List UInt8)
    (result : Pb.StageResult) :
    s.publish Io.fine name manifest result = (.ok result, s.published name manifest) := by
  have hnew :
    ¬((!Io.fine.create "manifest.json") = true ∨ "manifest.json" ∈ s.dir.map Prod.fst) := by
    rintro (hfail | hmem)
    · cases hfail
    · exact hs.manifest_new hmem
  have hdir : appendTo (s.dir ++ [("manifest.json", [])]) "manifest.json" manifest
      = s.dir ++ [("manifest.json", manifest)] := by
    have hothers : ∀ e ∈ s.dir,
        (if e.1 = "manifest.json" then (e.1, e.2 ++ manifest) else e) = id e := by
      intro e he
      exact if_neg fun hname => hs.manifest_new (List.mem_map.mpr ⟨e, he, hname⟩)
    rw [appendTo, List.map_append, List.map_congr_left hothers, List.map_id]
    rfl
  unfold Stage.publish Stage.published
  rw [if_neg hnew, ← hdir]
  rfl

/-- The paths of the files of a committed stage. -/
def finalPaths (root : Root) (h : Pb.UploadHeader) (name : String) : List String :=
  (List.range h.files.length).map (finalPath root h name)

/-- The clock has not gone back, and the stage expires at a time of ten digits. -/
def InTime (startedUnix completedUnix : Int64) : Prop :=
  startedUnix ≤ completedUnix ∧ 1000000000 ≤ completedUnix.toInt + 10800 ∧
    completedUnix.toInt + 10800 ≤ 9999999999

/-- The paths of a stage that is committed now. -/
def pathsAt (s : Stage) (root : Root) (completedUnix : Int64) : List String :=
  finalPaths root s.header (finalNameOf (completedUnix + webTtl) s.stageId)

/-- The manifest of a stage that is committed now. -/
def manifestAt (s : Stage) (root : Root) (session : Pb.Session) (completedUnix : Int64) : Json :=
  s.manifest session (completedUnix + webTtl) (s.pathsAt root completedUnix)

/-- The manifest is no longer than 64 KiB, as it is read and as it is written. -/
def Fits (format : UInt64 → List UInt8) (manifest : Json) : Prop :=
  1 + (manifest.text format).length ≤ 65536 ∧ (manifest.pretty format 0).length + 1 ≤ 65536

/-- The time at which a stage expires, and when it is none. -/
theorem inTime_iff {started completed : Int64} :
    InTime started completed ↔ started ≤ completed ∧
      checkedAdd completed webTtl = some (completed + webTtl) ∧
      1000000000 ≤ completed + webTtl ∧ completed + webTtl ≤ 9999999999 := by
  have hweb : webTtl.toInt = 10800 := rfl
  have hlow : (1000000000 : Int64).toInt = 1000000000 := rfl
  have hhigh : (9999999999 : Int64).toInt = 9999999999 := rfl
  have hexact : checkedAdd completed webTtl = some (completed + webTtl) →
      (completed + webTtl).toInt = completed.toInt + 10800 := by
    intro hadd
    rw [checkedAdd_toInt hadd, hweb]
  unfold InTime
  refine and_congr_right fun _ => ⟨?_, ?_⟩
  · rintro ⟨hmin, hmax⟩
    have hadd : checkedAdd completed webTtl = some (completed + webTtl) := by
      unfold checkedAdd
      rw [hweb, if_pos ⟨by omega, by omega⟩]
    have hsum := hexact hadd
    rw [Int64.le_iff_toInt_le, Int64.le_iff_toInt_le, hlow, hhigh]
    exact ⟨hadd, by omega, by omega⟩
  · rintro ⟨hadd, hmin, hmax⟩
    have hsum := hexact hadd
    rw [Int64.le_iff_toInt_le, hlow] at hmin
    rw [Int64.le_iff_toInt_le, hhigh] at hmax
    exact ⟨by omega, by omega⟩

/-- What the checks of the count find when all bytes are there. -/
theorem Sound.counted (hs : Sound sha256 s h seen) (hf : HeaderFacts h)
    (hall : seen.length = (sizes h).sum) :
    ¬(s.totalWritten ≠ s.header.totalBytes.toInt.toNat ∨ s.current.isSome = true ∨
      s.hashes.length ≠ s.header.files.length) := by
  obtain ⟨hcurrent, hhashes⟩ := hs.complete hf hall
  rw [hs.total, hs.same, hcurrent, hall, sizes, hf.total]
  rintro (hne | hne | hne)
  · exact hne rfl
  · cases hne
  · exact hne hhashes

/-- A stage that cannot be kept now. -/
theorem commitTyped_late (hs : Sound sha256 s h seen) (hf : HeaderFacts h)
    (hall : seen.length = (sizes h).sum) (format : UInt64 → List UInt8) (root : Root)
    {completedUnix : Int64} (hlate : ¬InTime s.startedUnix completedUnix) :
    (s.commitTyped Io.fine format root completedUnix).1 = .error .time := by
  rw [inTime_iff] at hlate
  unfold Stage.commitTyped
  rw [hs.check]
  simp only
  rw [if_neg (hs.counted hf hall)]
  split
  · rfl
  rename_i hstarted
  split
  · rfl
  rename_i expiry hexpiry
  rw [if_pos]
  · rfl
  · rintro ⟨hmin, hmax⟩
    have hsum : expiry = completedUnix + webTtl := by
      unfold checkedAdd at hexpiry
      split at hexpiry
      · exact (Option.some.inj hexpiry).symm
      · cases hexpiry
    subst hsum
    exact hlate ⟨Int64.not_lt.mp hstarted, hexpiry, hmin, hmax⟩

/-- **What is left of the commit of a stage that can be kept**: the checks of the paths and of
    the manifest, and the calls that publish it. -/
theorem commitTyped_inTime (hs : Sound sha256 s h seen) (hf : HeaderFacts h)
    (hall : seen.length = (sizes h).sum) (format : UInt64 → List UInt8) (root : Root)
    {completedUnix : Int64} {session : Pb.Session} (hsession : h.session = some session)
    (htime : InTime s.startedUnix completedUnix) :
    s.commitTyped Io.fine format root completedUnix =
      if (s.pathsAt root completedUnix).any fun path =>
          4096 < len path || (bytes path).any isControl then
        s.fail .root
      else if 65536 < 1 + ((s.manifestAt root session completedUnix).text format).length then
        (.error .size, s)
      else if 65536 <
          ((s.manifestAt root session completedUnix).pretty format 0 ++ [10]).length then
        s.fail .size
      else
        (.ok (s.result session (completedUnix + webTtl) (s.pathsAt root completedUnix)),
          s.published (finalNameOf (completedUnix + webTtl) s.stageId)
            ((s.manifestAt root session completedUnix).pretty format 0 ++ [10])) := by
  obtain ⟨hstarted, hadd, hrange⟩ := inTime_iff.mp htime
  obtain ⟨-, hhashes⟩ := hs.complete hf hall
  have hpaths : (List.range s.hashes.length).map
        (finalPath root s.header (finalNameOf (completedUnix + webTtl) s.stageId))
      = s.pathsAt root completedUnix := by
    rw [hhashes, ← hs.same]
    rfl
  have hsender : s.header.session = some session := by rw [hs.same, hsession]
  unfold Stage.commitTyped
  rw [hs.check]
  simp only
  rw [if_neg (hs.counted hf hall), if_neg (Int64.not_lt.mpr hstarted), hadd]
  simp only
  rw [if_neg (not_not.mpr hrange), hsender]
  simp only
  rw [hpaths, hs.publish]
  rfl

/-- Every file of the result is described by its header, its path and its hash. -/
theorem mem_result {session : Pb.Session} {expiry : Int64} {paths : List String}
    {file : Pb.StageFile} {i : ℕ} (hfile : (s.result session expiry paths).files[i]? = some file) :
    ∃ path f hash, paths[i]? = some path ∧ s.header.files[i]? = some f ∧ s.hashes[i]? = some hash ∧
      file = { index := UInt32.ofNat i, path, size := f.size, sha256 := hash } := by
  unfold Stage.result at hfile
  rw [List.getElem?_map, List.getElem?_zipIdx, Option.map_map, Option.map_eq_some_iff] at hfile
  obtain ⟨⟨path, f, hash⟩, hzip, rfl⟩ := hfile
  obtain ⟨hpath, hrest⟩ := List.getElem?_zip_eq_some.mp hzip
  obtain ⟨hf, hhash⟩ := List.getElem?_zip_eq_some.mp hrest
  refine ⟨path, f, hash, hpath, hf, hhash, ?_⟩
  simp only [Function.comp_apply, Nat.zero_add]

/-- The result names one file for each of the header. -/
theorem length_result {session : Pb.Session} {expiry : Int64} {paths : List String}
    (hpaths : paths.length = s.header.files.length)
    (hhashes : s.hashes.length = s.header.files.length) :
    (s.result session expiry paths).files.length = s.header.files.length := by
  unfold Stage.result
  rw [List.length_map, List.length_zipIdx, List.length_zip, List.length_zip, hpaths, hhashes]
  omega

end Home.Stage

/-! ### The checks of the answer

The answer of Home passes the protocol, which bounds what it retains, and the Gateway, which
compares it with its own hashes. -/

/-- What the compiler and the allocator do with the parts of a result: texts that are copied or
    decoded have little spare room, lists at most double, and the structures are small. -/
structure Tight (L : Layout) : Prop where
  string : ∀ n, L.stringCapacity n ≤ n + 8
  vec : ∀ n, L.vecCapacity n ≤ 2 * n + 4
  response : L.sizeOf .response ≤ 512
  stageResult : L.sizeOf .stageResult ≤ 512
  stageFile : L.sizeOf .stageFile ≤ 512
  session : L.sizeOf .session ≤ 512

section
variable {sha256 : List UInt8 → Vector UInt8 32} {s : Home.Stage} {h : Pb.UploadHeader}
  {seen : List UInt8} {session : Pb.Session} {expiry : Int64} {paths : List String}

/-- What is known about the answer of Home. -/
structure Answer (s : Home.Stage) (h : Pb.UploadHeader) (session : Pb.Session) (expiry : Int64)
    (paths : List String) : Prop where
  same : s.header = h
  stage : validId s.stageId = true
  sender : h.session = some session
  short : dollarDigits 12 session.id = true
  hashes : s.hashes.length = h.files.length
  hex : ∀ hash ∈ s.hashes, lowerHex 64 hash = true
  positive : 1 ≤ expiry
  count : paths.length = h.files.length
  valid : ∀ i f path, h.files[i]? = some f → paths[i]? = some path →
    len path ≤ 4096 ∧ validPath path (toString expiry.toInt ++ "-" ++ s.stageId) i
      f.extension = true

/-- There are sixteen files at most. -/
theorem HeaderFacts.length_le (hf : HeaderFacts h) : h.files.length ≤ 16 := by
  have hfew := UInt32.le_iff_toNat_le.mp hf.few
  rw [hf.count] at hfew
  exact hfew

/-- The answer has one entry for each file. -/
theorem Answer.length (ha : Answer s h session expiry paths) :
    (s.result session expiry paths).files.length = h.files.length := by
  rw [← ha.same]
  exact Home.Stage.length_result (ha.same ▸ ha.count) (ha.same ▸ ha.hashes)

/-- The paths of the answer, when there is a hash for every file. -/
theorem Answer.files_path (ha : Answer s h session expiry paths) :
    (s.result session expiry paths).files.map (·.path) = paths := by
  have hheaders := congrArg (fun h => h.files.length) ha.same
  have hpair : (s.header.files.zip s.hashes).length = paths.length := by
    rw [List.length_zip, ha.hashes, ha.count, hheaders, Nat.min_self]
  calc
    (s.result session expiry paths).files.map (·.path)
        = (paths.zip (s.header.files.zip s.hashes)).zipIdx.map (Prod.fst ∘ Prod.fst) := by
          unfold Home.Stage.result
          rw [List.map_map]
          rfl
    _ = (paths.zip (s.header.files.zip s.hashes)).map Prod.fst := by
          rw [← List.map_map, List.zipIdx_map_fst]
    _ = paths := List.map_fst_zip (Nat.le_of_eq hpair.symm)

/-- Every file of the answer passes. -/
theorem Answer.completedFile (ha : Answer s h session expiry paths) (hf : HeaderFacts h) {i : ℕ}
    {file : Pb.StageFile} {f : Pb.FileHeader} {hash : String}
    (hfile : (s.result session expiry paths).files[i]? = some file) (hheader : h.files[i]? = some f)
    (hhash : s.hashes[i]? = some hash) :
    ∃ out, completedFile (toString expiry.toInt ++ "-" ++ s.stageId) i file f hash = .ok out := by
  obtain ⟨path, f', hash', hpath, hheader', hhash', rfl⟩ := Home.Stage.mem_result hfile
  rw [ha.same, hheader] at hheader'
  rw [hhash] at hhash'
  obtain rfl := Option.some.inj hheader'
  obtain rfl := Option.some.inj hhash'
  have hi : i < h.files.length := (List.getElem?_eq_some_iff.mp hheader).1
  have hfew := hf.length_le
  have hindex : (UInt32.ofNat i).toNat = i := UInt32.toNat_ofNat_of_lt' (by
    rw [UInt32.size]
    omega)
  have hgood := (ha.valid i f path hheader hpath).2
  have hhex := ha.hex hash (List.mem_of_getElem? hhash)
  have hpass : ¬((UInt32.ofNat i).toNat ≠ i ∨ f.size ≠ f.size ∨ hash ≠ hash ∨
      (!lowerHex 64 hash) = true ∨
      (!validPath path (toString expiry.toInt ++ "-" ++ s.stageId) i f.extension) = true) := by
    rw [hindex, hhex, hgood]
    simp
  unfold Upload.completedFile
  rw [if_neg hpass]
  exact ⟨_, rfl⟩

/-- **The Gateway's check of the answer.** -/
theorem Answer.completion (ha : Answer s h session expiry paths) (hf : HeaderFacts h) :
    ∃ out, validateCompletion (s.result session expiry paths) h s.hashes = .ok out := by
  let r := s.result session expiry paths
  have hrequest : r.requestId = h.requestId := congrArg Pb.UploadHeader.requestId ha.same
  have hfirst : (validHeader h true && s.hashes.length = h.files.length : Bool) = true :=
    Bool.and_eq_true_iff.mpr ⟨hf.gateway true, decide_eq_true ha.hashes⟩
  have hsession : okOr r.session ContractError.invalid = .ok session := okOr_ok.mpr rfl
  have hsecond : (r.protocolVersion = 1 && r.requestId = h.requestId && session.id = session.id &&
      session.createdAt = session.createdAt && validId r.stageId && 1 ≤ r.expiresAtUnix : Bool)
      = true := by
    simp only [Bool.and_eq_true, decide_eq_true_eq]
    exact ⟨⟨⟨⟨⟨rfl, hrequest⟩, trivial⟩, trivial⟩, ha.stage⟩, ha.positive⟩
  have hthird : r.files.length = h.files.length := ha.length
  obtain ⟨files, hfiles⟩ : ∃ files, ((r.files.zip (h.files.zip s.hashes)).zipIdx).mapM
      (fun p => Upload.completedFile (toString r.expiresAtUnix.toInt ++ "-" ++ r.stageId) p.2 p.1.1
        p.1.2.1 p.1.2.2) = .ok files := by
    refine mapM_ok fun p hp => ?_
    obtain ⟨⟨file, f, hash⟩, i⟩ := p
    have hget : (r.files.zip (h.files.zip s.hashes))[i]? = some (file, f, hash) :=
      List.mem_zipIdx_iff_getElem?.mp hp
    obtain ⟨hfile, hrest⟩ := List.getElem?_zip_eq_some.mp hget
    obtain ⟨hheader, hhash⟩ := List.getElem?_zip_eq_some.mp hrest
    exact ha.completedFile hf hfile hheader hhash
  unfold validateCompletion
  rw [ok_bind (require_ok.mpr hfirst), ok_bind hsession, ok_bind (okOr_ok.mpr ha.sender),
    ok_bind (require_ok.mpr hsecond), ok_bind (require_ok.mpr (decide_eq_true hthird))]
  simp only
  rw [ok_bind hfiles]
  exact ⟨_, rfl⟩

/-- What a list of texts keeps. -/
theorem sum_capacity_le {L : Layout} (hL : Tight L) {α : Type} {texts : α → List String} {k n : ℕ}
    {items : List α} (hcount : ∀ a ∈ items, (texts a).length = k)
    (hlen : ∀ a ∈ items, ((texts a).map len).sum ≤ n) :
    (items.map fun a => ((texts a).map (textCapacity L)).sum).sum ≤ items.length * (n + 8 * k) := by
  induction items with
  | nil => rw [List.map_nil, List.sum_nil]; omega
  | cons a items ih =>
    have ih := ih (fun b hb => hcount b (List.mem_cons_of_mem _ hb))
      (fun b hb => hlen b (List.mem_cons_of_mem _ hb))
    have hone :
      ∀ l : List String, (l.map (textCapacity L)).sum ≤ (l.map len).sum + 8 * l.length := by
      intro l
      induction l with
      | nil => exact Nat.le_refl _
      | cons t l ihl =>
        have ht := hL.string (len t)
        rw [List.map_cons, List.map_cons, List.sum_cons, List.sum_cons, List.length_cons,
          textCapacity]
        omega
    have ha := hone (texts a)
    have hk := hcount a List.mem_cons_self
    have hn := hlen a List.mem_cons_self
    rw [hk] at ha
    rw [List.map_cons, List.sum_cons, List.length_cons, Nat.succ_mul]
    omega

/-- Every file of the answer is one the protocol takes. -/
theorem Answer.stagedFile (ha : Answer s h session expiry paths) (hf : HeaderFacts h) {i : ℕ}
    {file : Pb.StageFile} (hfile : (s.result session expiry paths).files[i]? = some file) :
    stagedFile i file = true ∧ len file.path ≤ 4096 ∧ len file.sha256 = 64 := by
  obtain ⟨path, f, hash, hpath, hheader, hhash, rfl⟩ := Home.Stage.mem_result hfile
  rw [ha.same] at hheader
  have hi : i < h.files.length := (List.getElem?_eq_some_iff.mp hheader).1
  have hfew := hf.length_le
  have hindex : (UInt32.ofNat i).toNat = i := UInt32.toNat_ofNat_of_lt' (by
    rw [UInt32.size]
    omega)
  have hvalid := hf.files (f, i) (List.mem_zipIdx_iff_getElem?.mpr hheader)
  simp only [validFile, Bool.and_eq_true, decide_eq_true_eq] at hvalid
  have hpos : 0 < f.size := by
    rw [Int64.lt_iff_toInt_lt]
    exact hf.size_pos f (List.mem_of_getElem? hheader)
  have hlen := (ha.valid i f path hheader hpath).1
  have hhex : len hash = 64 :=
    of_decide_eq_true (Bool.and_eq_true_iff.mp (ha.hex hash (List.mem_of_getElem? hhash))).1
  refine ⟨?_, hlen, hhex⟩
  simp only [Protocol.stagedFile, Bool.and_eq_true, decide_eq_true_eq]
  exact ⟨⟨⟨⟨hindex, hpos⟩, hvalid.1.1.2⟩, hlen⟩, hhex⟩

/-- The answer does not keep more than its limit. -/
theorem Answer.retained {L : Layout} (hL : Tight L) (ha : Answer s h session expiry paths)
    (hf : HeaderFacts h) :
    responseRetainedBytes L
      { id := h.requestId, error := "", result := some (.staged (s.result session expiry paths)) }
      ≤ stageMax * 2 := by
  let r := s.result session expiry paths
  -- every text is counted with at most eight bytes more than it has
  have hcap : ∀ t, textCapacity L t ≤ len t + 8 := fun t => hL.string (len t)
  have hid : len h.requestId = 32 := of_decide_eq_true (Bool.and_eq_true_iff.mp hf.id).1
  have hstage : len s.stageId = 32 := of_decide_eq_true (Bool.and_eq_true_iff.mp ha.stage).1
  have hrequest : r.requestId = h.requestId := congrArg Pb.UploadHeader.requestId ha.same
  have hsession : len session.id ≤ 13 := by
    have hshort := ha.short
    simp only [dollarDigits, Bool.and_eq_true, decide_eq_true_eq] at hshort
    have htail := hshort.1.2
    rw [List.length_tail] at htail
    rw [len]
    omega
  have hcount : r.files.length ≤ 16 :=
    ha.length.trans_le hf.length_le
  -- a file's path and digest come to at most 4160 bytes
  have htexts : (r.files.map fun f => (([f.path, f.sha256].map (textCapacity L)).sum)).sum
      ≤ r.files.length * (4160 + 8 * 2) := by
    refine sum_capacity_le hL (fun _ _ => rfl) fun file hmem => ?_
    obtain ⟨i, hi⟩ := List.mem_iff_getElem?.mp hmem
    obtain ⟨-, hpath, hsha⟩ := ha.stagedFile hf hi
    simp only [List.map_cons, List.map_nil, List.sum_cons, List.sum_nil]
    omega
  have hvec : L.vecCapacity r.files.length * L.sizeOf .stageFile ≤ 36 * 512 :=
    Nat.mul_le_mul ((hL.vec _).trans (by omega)) hL.stageFile
  have hfiles : r.files.length * (4160 + 8 * 2) ≤ 16 * (4160 + 8 * 2) :=
    Nat.mul_le_mul_right _ hcount
  have hres := hL.response
  have hstaged := hL.stageResult
  have hses := hL.session
  have h1 := hcap h.requestId
  have h2 := hcap s.stageId
  have h3 := hcap session.id
  have h4 := hcap ""
  have h5 : len "" = 0 := rfl
  show L.sizeOf .response + textCapacity L h.requestId + textCapacity L "" +
    (L.sizeOf .stageResult + ([r.requestId, s.stageId].map (textCapacity L)).sum +
      (L.vecCapacity r.files.length * L.sizeOf .stageFile +
        (r.files.map fun f => (([f.path, f.sha256].map (textCapacity L)).sum)).sum) +
      (L.sizeOf .session + textCapacity L session.id)) ≤ 65536 * 2
  rw [hrequest]
  simp only [List.map_cons, List.map_nil, List.sum_cons, List.sum_nil] at htexts ⊢
  omega

/-- **The protocol's check of the answer.** -/
theorem Answer.response {L : Layout} (hL : Tight L) (ha : Answer s h session expiry paths)
    (hf : HeaderFacts h) :
    validateResponse L
      { id := h.requestId, error := "", result := some (.staged (s.result session expiry paths)) }
      = .ok () := by
  obtain ⟨session', hsession', hcreated, -⟩ := hf.session
  rw [ha.sender] at hsession'
  obtain rfl := Option.some.inj hsession'
  have hid : validateSessionId session.id = true := by
    have hshort := ha.short
    simp only [dollarDigits, Bool.and_eq_true, decide_eq_true_eq] at hshort
    obtain ⟨⟨⟨hhead, hsome⟩, hfew⟩, hdigits⟩ := hshort
    rw [List.length_tail] at hsome hfew
    simp only [validateSessionId, Bool.and_eq_true, decide_eq_true_eq]
    exact ⟨⟨⟨by omega, by omega⟩, hhead⟩, hdigits⟩
  have hcount : (s.result session expiry paths).files.length ≤ 16 :=
    ha.length.trans_le hf.length_le
  have hfiles : ((s.result session expiry paths).files.zipIdx.all fun p =>
      Protocol.stagedFile p.2 p.1) = true := by
    refine List.all_eq_true.mpr fun p hp => ?_
    exact (ha.stagedFile hf (List.mem_zipIdx_iff_getElem?.mp hp)).1
  unfold validateResponse
  rw [if_neg (fun hne => hne rfl)]
  refine require_ok.mpr ?_
  rw [Option.all_some]
  simp only [resultValid, Bool.and_eq_true, decide_eq_true_eq]
  refine ⟨⟨⟨⟨rfl, ?_⟩, hcount⟩, hfiles⟩, ha.retained hL hf⟩
  show (validateSessionId session.id && decide (0 < session.createdAt)) = true
  exact Bool.and_eq_true_iff.mpr ⟨hid, decide_eq_true hcreated⟩

end

/-! ### Whole uploads

The chunks go to both ends; what the two ends know after them is compared, and then the upload is
finished on both. -/

/-- The answers of one end of the upload to some chunks. -/
def feedAll {σ ε : Type} (step : σ → List UInt8 → Option (Except ε ℕ × σ)) :
    σ → List (List UInt8) → Option (List (Except ε ℕ) × σ)
  | s, [] => some ([], s)
  | s, chunk :: chunks => do
    let (answer, s) ← step s chunk
    let (answers, s) ← feedAll step s chunks
    pure (answer :: answers, s)

/-- How many bytes have come after each chunk. -/
def totals : ℕ → List (List UInt8) → List ℕ
  | _, [] => []
  | n, chunk :: chunks => (n + chunk.length) :: totals (n + chunk.length) chunks

/-- The chunks of an upload as they may come: none is empty and none is too long. -/
def Chunked (chunks : List (List UInt8)) : Prop := ∀ c ∈ chunks, c ≠ [] ∧ c.length ≤ maxChunk

/-- What holds after every chunk holds after all of them. -/
theorem feedAll_sound {σ ε : Type} {step : σ → List UInt8 → Option (Except ε ℕ × σ)}
    {Sound : σ → List UInt8 → Prop} {limit : ℕ}
    (hstep : ∀ {s seen c}, Sound s seen → c ≠ [] → c.length ≤ maxChunk →
      seen.length + c.length ≤ limit →
      ∃ s', step s c = some (.ok (seen ++ c).length, s') ∧ Sound s' (seen ++ c))
    {s : σ} {seen : List UInt8} {chunks : List (List UInt8)} (hs : Sound s seen)
    (hchunks : Chunked chunks) (hfits : seen.length + chunks.flatten.length ≤ limit) :
    ∃ s', feedAll step s chunks = some ((totals seen.length chunks).map .ok, s') ∧
      Sound s' (seen ++ chunks.flatten) := by
  induction chunks generalizing s seen with
  | nil => exact ⟨s, rfl, by rw [List.flatten_nil, List.append_nil]; exact hs⟩
  | cons c chunks ih =>
    rw [List.flatten_cons, List.length_append] at hfits
    obtain ⟨hne, hlen⟩ := hchunks c List.mem_cons_self
    obtain ⟨s₁, hfirst, hsound⟩ := hstep hs hne hlen (by omega)
    have hrest : (seen ++ c).length + chunks.flatten.length ≤ limit := by
      rw [List.length_append]
      omega
    obtain ⟨s', hmore, hsound'⟩ := ih hsound (fun d hd =>
      hchunks d (List.mem_cons_of_mem _ hd)) hrest
    refine ⟨s', ?_, ?_⟩
    · rw [feedAll, hfirst, totals, ← List.length_append]
      simp only [Option.bind_eq_bind, Option.bind_some, hmore]
      rfl
    · rw [List.flatten_cons, ← List.append_assoc]
      exact hsound'

/-- Home keeps the start and the id of the upload over all chunks. -/
theorem feedAll_keeps {sha256 : List UInt8 → Vector UInt8 32} {io : Home.Io} {s s' : Home.Stage}
    {chunks : List (List UInt8)} {answers : List (Except Home.Error ℕ)}
    (hfeed : feedAll (Home.Stage.write sha256 io) s chunks = some (answers, s')) :
    Home.Stage.Keeps s s' := by
  induction chunks generalizing s answers with
  | nil =>
    cases hfeed
    exact ⟨rfl, rfl⟩
  | cons c chunks ih =>
    simp only [feedAll, Option.bind_eq_bind, Option.bind_eq_some_iff] at hfeed
    obtain ⟨⟨answer, s₁⟩, hfirst, ⟨rest, s₂⟩, hmore, hlast⟩ := hfeed
    cases hlast
    exact (Home.Stage.write_keeps hfirst).trans (ih hmore)

section
variable {sha256 : List UInt8 → Vector UInt8 32} {h : Pb.UploadHeader}

/-- No file is empty. -/
theorem HeaderFacts.sizes_pos (hf : HeaderFacts h) : ∀ n ∈ Home.sizes h, 0 < n := by
  intro n hn
  obtain ⟨f, hmem, rfl⟩ := List.mem_map.mp hn
  have hsize := hf.size_pos f hmem
  unfold fileSize
  omega

/-- The Gateway's side of a new upload. -/
theorem new_counts (hf : HeaderFacts h) {h₀ : Pb.UploadHeader} (hv : validHeader h₀ false = true)
    (hfiles : h₀.files = h.files) (htotal : h₀.totalBytes = h.totalBytes) :
    ∃ u, UploadHashes.new h₀ = .ok u ∧ u.Counts (Home.sizes h) [] := by
  have hne : 0 < h.files.length := by
    rw [← hf.count]
    exact UInt32.le_iff_toNat_le.mp hf.some
  obtain ⟨f, rest, hcons⟩ := List.exists_cons_of_length_pos hne
  unfold UploadHashes.new
  rw [hv]
  refine ⟨_, rfl, ⟨?_, ?_, ?_, ?_, ?_, ?_⟩, rfl, ?_⟩
  · show h₀.files.map fileSize = Home.sizes h
    rw [hfiles, Home.sizes]
  · show (h₀.files.map fileSize).map (fun _ => []) = pieces (Home.sizes h) []
    rw [pieces_nil, hfiles, Home.sizes, List.map_const']
  · show 0 < (Home.sizes h).length
    rw [Home.sizes, List.length_map]
    exact hne
  · show offset (Home.sizes h) 0 ≤ 0
    rw [offset_zero]
  · show (h₀.files.map fileSize).head?.getD 0 + 0 = offset (Home.sizes h) 1
    rw [hfiles, Home.sizes, hcons, List.map_cons, offset_cons_succ, offset_zero]
    rfl
  · show (h₀.files.map fileSize).head?.getD 0 = 0 → _
    intro hzero
    have hpos := hf.sizes_pos (fileSize f) (by
      rw [Home.sizes, hcons]
      exact List.mem_cons_self)
    rw [hfiles, hcons] at hzero
    exact absurd hzero (Nat.pos_iff_ne_zero.mp hpos)
  · show h₀.totalBytes.toInt.toNat = (Home.sizes h).sum
    rw [htotal, Home.sizes, hf.total]

/-- Files that Home has not started have no bytes at the Gateway either. -/
theorem piece_not_started {s : Home.Stage} {seen : List UInt8} {i : ℕ}
    (hs : Home.Stage.Sound sha256 s h seen) (hi : s.dir.length ≤ i) :
    (pieces (Home.sizes h) seen).getD i [] = [] := by
  rw [hs.dir, Home.dirOf, List.length_map, List.length_range] at hi
  have hpast : seen.length ≤ offset (Home.sizes h) i := by
    cases hcurrent : s.current with
    | none =>
      rw [hcurrent] at hi
      rw [← hs.closed hcurrent]
      exact offset_mono hi
    | some c =>
      rw [hcurrent] at hi
      obtain ⟨-, -, -, hopen⟩ := hs.opened c hcurrent
      have hmono : offset (Home.sizes h) (s.hashes.length + 1) ≤ offset (Home.sizes h) i :=
        offset_mono hi
      omega
  rw [List.getD_eq_getElem?_getD]
  cases hn : (Home.sizes h)[i]? with
  | none =>
    have hlen : (pieces (Home.sizes h) seen).length ≤ i := by
      rw [length_pieces]
      exact List.getElem?_eq_none_iff.mp hn
    rw [List.getElem?_eq_none hlen]
    rfl
  | some n =>
    rw [getElem?_pieces hn, List.drop_of_length_le hpast, List.take_nil]
    rfl

/-- Both ends after the bytes `seen`: they gave the same bytes to every file, and one byte too many
    is refused by both without being counted. -/
structure Agree (sha256 : List UInt8 → Vector UInt8 32) (h : Pb.UploadHeader) (u : UploadHashes)
    (s : Home.Stage) (seen : List UInt8) : Prop where
  ranges : u.hashers = pieces (h.files.map fileSize) seen
  files : s.dir = (List.range s.dir.length).map fun i => (Home.fileName h i, u.hashers.getD i [])
  notStarted : ∀ i, s.dir.length ≤ i → u.hashers.getD i [] = []
  excess : ∀ data, h.totalBytes.toInt.toNat < seen.length + data.length →
    u.consume data = some (.error .size, u) ∧
    s.write sha256 Home.Io.fine data = some (.error .size, { s with failed := true })

/-- Both sides have hashed what the stage has written. -/
theorem agree_of_sound {u : UploadHashes} {s : Home.Stage} {seen : List UInt8} (hf : HeaderFacts h)
    (hu : u.Counts (Home.sizes h) seen) (hs : Home.Stage.Sound sha256 s h seen) :
    Agree sha256 h u s seen := by
  have hhashers : u.hashers = pieces (Home.sizes h) seen := hu.sound.hashers
  refine ⟨hhashers, ?_, ?_, ?_⟩
  · have hdir := hs.dir
    have hlen : s.dir.length = s.hashes.length + s.current.toList.length := by
      rw [hdir, Home.dirOf, List.length_map, List.length_range]
    rw [hlen, hhashers]
    exact hdir
  · intro i hi
    rw [hhashers]
    exact piece_not_started hs hi
  · intro data hmuch
    rw [← hf.total] at hmuch
    exact ⟨UploadHashes.consume_excess hu hmuch, Home.Stage.write_excess hs hf hmuch⟩

/-- The stage holds the whole upload `h` that was begun like this. -/
structure Whole (h : Pb.UploadHeader) (entropy : Vector UInt8 16) (startedUnix : Int64)
    (hashes : List String) (s : Home.Stage) : Prop where
  header : s.header = h
  stageId : s.stageId = Home.newStageId entropy
  startedUnix : s.startedUnix = startedUnix
  hashes : s.hashes = hashes

open Upload.Home.Stage in
/-- What Home answers to a whole upload, and what it leaves: each error under its own condition,
    and in all other cases the result, which passes the checks of the protocol and of the
    Gateway, with the manifest in the directory and the directory under its final name. -/
structure Accepted (L : Layout) (format : UInt64 → List UInt8) (root : Home.Root)
    (completedUnix : Int64) (session : Pb.Session) (s : Home.Stage)
    (answer : Except Home.Error Pb.StageResult × Home.Stage) : Prop where
  late : ¬InTime s.startedUnix completedUnix → answer.1 = .error .time
  long : InTime s.startedUnix completedUnix →
    (∃ path ∈ s.pathsAt root completedUnix, 4096 < len path) → answer.1 = .error .root
  large : InTime s.startedUnix completedUnix →
    (∀ path ∈ s.pathsAt root completedUnix, len path ≤ 4096) →
    ¬Fits format (s.manifestAt root session completedUnix) → answer.1 = .error .size
  done : InTime s.startedUnix completedUnix →
    (∀ path ∈ s.pathsAt root completedUnix, len path ≤ 4096) →
    Fits format (s.manifestAt root session completedUnix) → ∃ r,
      answer = (.ok r, s.published (Home.finalNameOf r.expiresAtUnix s.stageId)
        ((s.manifestAt root session completedUnix).pretty format 0 ++ [10])) ∧
      r.expiresAtUnix = completedUnix + Home.webTtl ∧
      r.files.map (·.path) = s.pathsAt root completedUnix ∧
      validateResponse L { id := s.header.requestId, error := "", result := some (.staged r) }
        = .ok () ∧
      ∃ out, validateCompletion r s.header s.hashes = .ok out

theorem accepted_of_sound {L : Layout} (hL : Tight L) {s : Home.Stage} {seen : List UInt8}
    {session : Pb.Session} (hf : HeaderFacts h) (hs : Home.Stage.Sound sha256 s h seen)
    (hsession : h.session = some session) (hshort : dollarDigits 12 session.id = true)
    (hall : seen.length = (Home.sizes h).sum) (format : UInt64 → List UInt8) (root : Home.Root)
    (completedUnix : Int64) :
    Accepted L format root completedUnix session s
      (s.commitTyped Home.Io.fine format root completedUnix) := by
  obtain ⟨-, hcount⟩ := hs.complete hf hall
  -- the names of the files once they are published
  have hnames : s.pathsAt root completedUnix = Home.Stage.finalPaths root h
      (Home.finalNameOf (completedUnix + Home.webTtl) s.stageId) := by
    rw [Home.Stage.pathsAt, hs.same]
  have hfew := hf.length_le
  -- extensions are plain, so the paths have no control characters
  have hvalid : ∀ {i : ℕ} {f : Pb.FileHeader}, h.files[i]? = some f →
      ∀ b ∈ bytes f.extension, (isAsciiLowercase b || isAsciiDigit b) = true := by
    intro i f hfile
    have hchecked := hf.files (f, i) (List.mem_zipIdx_iff_getElem?.mpr hfile)
    simp only [validFile, Bool.and_eq_true, List.all_eq_true] at hchecked
    exact hchecked.2
  have hclean : ∀ path ∈ s.pathsAt root completedUnix, (bytes path).any isControl = false := by
    intro path hpath
    rw [hnames] at hpath
    obtain ⟨i, hi, rfl⟩ := List.mem_map.mp hpath
    have hlt : i < h.files.length := List.mem_range.mp hi
    have hfile := List.getElem?_eq_getElem hlt
    exact Home.Stage.finalPath_clean hs.stage hfile (by omega) (hvalid hfile)
  -- within its time a commit depends on sizes only
  have hcommit := fun htime : Home.Stage.InTime s.startedUnix completedUnix =>
    Home.Stage.commitTyped_inTime hs hf hall format root hsession htime
  have hpretty : ∀ text : List UInt8, (text ++ [10]).length = text.length + 1 := fun _ =>
    List.length_append
  have hshortAll : (∀ path ∈ s.pathsAt root completedUnix, len path ≤ 4096) →
      ¬((s.pathsAt root completedUnix).any fun path =>
        4096 < len path || (bytes path).any isControl) = true := by
    intro hlen hany
    obtain ⟨path, hmem, hbad⟩ := List.any_eq_true.mp hany
    have hone := hlen path hmem
    rw [hclean path hmem, Bool.or_false, decide_eq_true_eq] at hbad
    omega
  refine ⟨Home.Stage.commitTyped_late hs hf hall format root, ?_, ?_, ?_⟩
  -- a path is too long
  · rintro htime ⟨path, hmem, hlong⟩
    rw [hcommit htime, if_pos]
    · rfl
    · exact List.any_eq_true.mpr ⟨path, hmem, Bool.or_eq_true_iff.mpr
        (.inl (decide_eq_true hlong))⟩
  -- the manifest is too large
  · intro htime hlen hlarge
    rw [hcommit htime, if_neg (hshortAll hlen)]
    split
    · rfl
    rename_i htext
    rw [if_pos]
    · rfl
    · rw [hpretty]
      exact Nat.lt_of_not_le fun hle => hlarge ⟨Nat.le_of_not_lt htext, hle⟩
  -- everything fits, and the answer says what was written
  · rintro htime hlen ⟨htext, hwritten⟩
    have ha : Answer s h session (completedUnix + Home.webTtl) (s.pathsAt root completedUnix) := by
      refine ⟨hs.same, hs.stage, hsession, hshort, hcount, ?_, ?_, ?_, ?_⟩
      · intro hash hmem
        rw [hs.hashes] at hmem
        obtain ⟨fed, -, rfl⟩ := List.mem_map.mp hmem
        exact hexDigest_valid (sha256 fed)
      · exact Int64.le_trans (by decide) (Home.Stage.inTime_iff.mp htime).2.2.1
      · rw [hnames, Home.Stage.finalPaths, List.length_map, List.length_range]
      · intro i f path hfile hpath
        have hmem := List.mem_of_getElem? hpath
        have hi : i < h.files.length := (List.getElem?_eq_some_iff.mp hfile).1
        rw [hnames, Home.Stage.finalPaths, List.getElem?_map, List.getElem?_range hi] at hpath
        have heq := Option.some.inj hpath
        exact ⟨hlen path hmem, validPath_final hfile (by omega) (hvalid hfile) hs.stage heq.symm
          (hlen path hmem) (hclean path hmem)⟩
    rw [hcommit htime, if_neg (hshortAll hlen), if_neg (Nat.not_lt.mpr htext), if_neg]
    · refine ⟨_, rfl, rfl, ha.files_path, ?_, ?_⟩
      · rw [hs.same]
        exact ha.response hL hf
      · rw [hs.same]
        exact ha.completion hf
    · rw [hpretty]
      exact Nat.not_lt.mpr hwritten

/-- The hashes of both ends. -/
theorem finish_of_sound {u : UploadHashes} {s : Home.Stage} {seen : List UInt8}
    (hf : HeaderFacts h) (hu : u.Counts (Home.sizes h) seen)
    (hs : Home.Stage.Sound sha256 s h seen) (hall : seen.length = (Home.sizes h).sum) :
    u.finish sha256 = .ok s.hashes := by
  obtain ⟨-, hcount⟩ := hs.complete hf hall
  have hhashes : s.hashes = u.hashers.map fun fed => hexDigest (sha256 fed) := by
    have hlen : (pieces (Home.sizes h) seen).length ≤ s.hashes.length := by
      rw [length_pieces, hcount, Home.sizes, List.length_map]
    rw [hs.hashes, List.take_of_length_le hlen, hu.sound.hashers]
  have hcomplete : u.isComplete = true := by
    rw [UploadHashes.isComplete, hu.received, hu.total, hall, beq_self_eq_true]
  unfold UploadHashes.finish
  rw [hcomplete, hhashes]
  rfl

/-- **Both ends account for an upload alike.**  The header made from an accepted first frame passes
    all three checks; whatever the chunks, both ends return the same counts and give the same bytes
    to every file; and the commit of a whole upload fails exactly when the clock, a path or the
    length of the manifest does not allow it, while any other result passes the checks of the
    protocol and the Gateway. -/
theorem uploads_agree {S : Serde} {raw : List UInt8} {csrf : String} {h₀ h : Pb.UploadHeader}
    {generation next : UInt64} {L : Layout} (hd : decodeStart S raw csrf = .ok h₀)
    (hh : h = complete h₀ generation next) (hL : Tight L)
    (parseTime : String → Option DateTime) (sha256 : List UInt8 → Vector UInt8 32) :
    validBody L parseTime (.uploadStart { id := h.requestId, header := some h }) = true ∧
    Home.validateHeader h = .ok () ∧
    ∃ session u₀, h.session = some session ∧ UploadHashes.new h₀ = .ok u₀ ∧
      ∀ (entropy : Vector UInt8 16) (startedUnix : Int64) (chunks : List (List UInt8)),
        Chunked chunks → chunks.flatten.length ≤ h.totalBytes.toInt.toNat →
        ∃ u s, feedAll UploadHashes.consume u₀ chunks = some ((totals 0 chunks).map .ok, u) ∧
          feedAll (Home.Stage.write sha256 Home.Io.fine) (Home.Stage.begin h entropy startedUnix)
            chunks = some ((totals 0 chunks).map .ok, s) ∧
          Agree sha256 h u s chunks.flatten ∧
          (chunks.flatten.length = h.totalBytes.toInt.toNat →
            ∃ hashes, u.finish sha256 = .ok hashes ∧ Whole h entropy startedUnix hashes s ∧
              ∀ format root completedUnix, Accepted L format root completedUnix session s
                (s.commitTyped Home.Io.fine format root completedUnix)) := by
  have hf : HeaderFacts h := by
    rw [hh]
    exact complete_facts hd generation next
  have hfiles : h₀.files = h.files := by rw [hh, complete]
  have htotal : h₀.totalBytes = h.totalBytes := by rw [hh, complete]
  obtain ⟨hvalid, session, hsession, hshort⟩ := decodeStart_ok hd
  have hsame : h.session = some session := by rw [hh, complete, hsession]
  obtain ⟨u₀, hnew, hcounts⟩ := new_counts hf hvalid hfiles htotal
  refine ⟨?_, hf.home, session, u₀, hsame, hnew, ?_⟩
  -- the body names this protocol
  · simp only [validBody, Option.any_some, Bool.and_eq_true, decide_eq_true_eq]
    exact ⟨hf.protocolId, hf.protobuf, trivial⟩
  · intro entropy startedUnix chunks hchunks hfits
    rw [← hf.total] at hfits ⊢
    have hzero : ([] : List UInt8).length + chunks.flatten.length ≤ (Home.sizes h).sum := by
      rw [List.length_nil, Nat.zero_add]
      exact hfits
    -- the gateway hashes what goes through, the home what it writes, over the same chunks
    obtain ⟨u, hforward, hu⟩ := feedAll_sound
      (fun hs hne hlen hle => UploadHashes.consume_sound hf.sizes_pos hs hne hlen hle)
      hcounts hchunks hzero
    obtain ⟨s, hwrite, hs⟩ := feedAll_sound
      (fun hs _ hlen hle => Home.Stage.write_sound hs hf hlen hle)
      (Home.Stage.begin_sound sha256 h entropy startedUnix) hchunks hzero
    rw [List.nil_append] at hu hs
    have hkept := feedAll_keeps hwrite
    refine ⟨u, s, hforward, hwrite, agree_of_sound hf hu hs, fun hall => ?_⟩
    exact ⟨s.hashes, finish_of_sound hf hu hs hall,
      ⟨hs.same, hkept.stageId, hkept.startedUnix, rfl⟩,
      accepted_of_sound hL hf hs hsame hshort hall⟩

end

namespace TwoFilesExample

/-! An upload of two files in two chunks, of which the second one crosses from file to file. -/

/-- The browser's first frame. -/
def raw : List UInt8 := bytes
  "\x7b\"type\":\"start\",\"csrf\":\"token\",\"session\":\x7b\"id\":\"$1\",\"created_at\":5\x7d,\"files\":[\x7b\"size\":2,\"extension\":\"txt\"\x7d,\x7b\"size\":3\x7d]\x7d"

def header : Pb.UploadHeader :=
  { protocolVersion := 1, requestId := "", session := some { id := "$1", createdAt := 5 }
    fileCount := 2, totalBytes := 5
    files := [{ index := 0, size := 2, «extension» := "txt" },
      { index := 1, size := 3, «extension» := "" }] }

/-- The request of the example is accepted. -/
theorem raw_accepted : decodeStart Json.Compact.serde raw "token" = .ok header := by
  have hread : (decodeStart Json.Compact.serde raw "token").toOption = some header := by
    decide +kernel
  cases hdecode : decodeStart Json.Compact.serde raw "token" with
  | error e => rw [hdecode] at hread; cases hread
  | ok h => rw [hdecode] at hread; rw [Option.some.inj hread]

/-- Texts without spare room, and lists that double. -/
def layout : Layout :=
  { sizeOf := fun _ => 200, sizeOfString := 24, stringCapacity := id,
    vecCapacity := fun n => 2 * n }

/-- The sizes of the example are possible ones. -/
theorem layout_tight : Tight layout :=
  ⟨fun n => Nat.le_add_right n 8, fun n => Nat.le_add_right (2 * n) 4, by decide, by decide,
    by decide, by decide⟩

/-- Where Home keeps the stages. -/
theorem root_checked : Home.checkedRoot "/hmux/staged-files-v1" = true := by decide +kernel

def root : Home.Root := ⟨"/hmux/staged-files-v1", root_checked⟩

/-- Where the two files are after the commit. -/
def paths : List String :=
  ["/hmux/staged-files-v1/1700010800-00000000000000000000000000000000/file-0001.txt",
    "/hmux/staged-files-v1/1700010800-00000000000000000000000000000000/file-0002"]

theorem two_files_agree :
    decodeStart Json.Compact.serde raw "token" = .ok header ∧
    Home.validateHeader (complete header 1 7) = .ok () ∧
    ∃ (u₀ u : UploadHashes) (s s' : Home.Stage) (hashes : List String) (r : Pb.StageResult),
      UploadHashes.new header = .ok u₀ ∧
      feedAll UploadHashes.consume u₀ [[104], [105, 97, 98, 99]] = some ([.ok 1, .ok 5], u) ∧
      u.hashers = [[104, 105], [97, 98, 99]] ∧
      u.finish (fun _ => Vector.replicate 32 0) = .ok hashes ∧
      s.commitTyped Home.Io.fine (fun _ => []) root 1700000000 = (.ok r, s') ∧
      r.files.map (·.path) = paths ∧
      s'.finalName = some "1700010800-00000000000000000000000000000000" ∧
      ∃ out, validateCompletion r (complete header 1 7) hashes = .ok out := by
  have hchunks : Chunked [[104], [105, 97, 98, 99]] := by
    unfold Chunked maxChunk
    decide
  have hcomplete : complete header 1 7 = complete header 1 7 := rfl
  -- the general theorem gives every part but the numbers of this upload
  obtain ⟨-, hhome, session, u₀, hsession, hnew, hall⟩ :=
    uploads_agree raw_accepted hcomplete layout_tight (fun _ => none)
      (fun _ => Vector.replicate 32 0)
  obtain ⟨u, s, hcounts, -, hagree, hend⟩ :=
    hall (Vector.replicate 16 0) 1600000000 _ hchunks (by decide)
  obtain ⟨hashes, hfinish, hwhole, haccepted⟩ := hend (by decide)
  have hcommit := haccepted (fun _ => []) root 1700000000
  have hhashes : hashes = List.replicate 2 (hexDigest (Vector.replicate 32 0)) := by
    have hranges : u.hashers = [[104, 105], [97, 98, 99]] := hagree.ranges
    unfold UploadHashes.finish at hfinish
    split at hfinish
    · cases hfinish
    · rw [← Except.ok.inj hfinish, hranges]
      rfl
  -- the paths, the time and the manifest of this upload are within their bounds
  have hpaths : s.pathsAt root 1700000000 = paths := by
    unfold Home.Stage.pathsAt
    rw [hwhole.header, hwhole.stageId]
    decide +kernel
  have htime : Home.Stage.InTime s.startedUnix 1700000000 := by
    rw [hwhole.startedUnix]
    unfold Home.Stage.InTime
    decide
  have hshort : ∀ path ∈ s.pathsAt root 1700000000, len path ≤ 4096 := by
    rw [hpaths]
    decide +kernel
  have hfits : Home.Stage.Fits (fun _ => []) (s.manifestAt root session 1700000000) := by
    obtain rfl := Option.some.inj hsession
    unfold Home.Stage.Fits Home.Stage.manifestAt Home.Stage.manifest
    rw [hpaths, hwhole.header, hwhole.stageId, hwhole.hashes, hhashes]
    decide +kernel
  obtain ⟨r, hresult, hexpiry, hfiles, -, hchecked⟩ := hcommit.done htime hshort hfits
  rw [hwhole.header, hwhole.hashes] at hchecked
  refine ⟨raw_accepted, hhome, u₀, u, s, _, hashes, r, hnew, hcounts, hagree.ranges, hfinish,
    hresult, hfiles.trans hpaths, ?_, hchecked⟩
  show some (Home.finalNameOf r.expiresAtUnix s.stageId) = _
  rw [hexpiry, hwhole.stageId]
  decide +kernel

end TwoFilesExample

end Hmux.Upload
