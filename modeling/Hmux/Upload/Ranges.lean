import Hmux.Lib.Pieces
import Hmux.Upload.Headers

namespace Hmux.Upload

open Hmux.Lib Hmux.Protocol

/-!
# Two loops, one partition

The Gateway moves to the next file as soon as a file is full, Home opens a file when its first
byte comes.  Both follow the same cut of the stream (`pieces`): `UploadHashes.Sound` and
`Stage.Sound` say what each of them knows after the bytes it has seen.

* `consume_sound`, `write_sound` — one chunk, on either side;
* `consume_excess`, `write_excess` — a chunk that is too long is refused before it is counted.
-/

/-! ### The Gateway

The loop gives the bytes of a chunk to the file that is next, and after a full file goes on with
the one behind it. -/

namespace UploadHashes

variable {u : UploadHashes} {sizes : List ℕ} {seen data : List UInt8}

/-- After the bytes `seen`, every hasher was fed its piece; the file index is the one of the next
    byte, or the last one when there is none. -/
structure Sound (u : UploadHashes) (sizes : List ℕ) (seen : List UInt8) : Prop where
  same : u.sizes = sizes
  hashers : u.hashers = pieces sizes seen
  index : u.fileIndex < sizes.length
  start : offset sizes u.fileIndex ≤ seen.length
  rest : u.remaining + seen.length = offset sizes (u.fileIndex + 1)
  eager : u.remaining = 0 → u.fileIndex + 1 = sizes.length

/-- There is room for the next byte if there is a next byte. -/
theorem Sound.room (h : Sound u sizes seen) (hlt : seen.length < sizes.sum) : 0 < u.remaining := by
  rcases Nat.eq_zero_or_pos u.remaining with hzero | hpos
  · have hrest := h.rest
    rw [hzero, h.eager hzero, offset_length] at hrest
    omega
  · exact hpos

/-- A round of the loop. -/
theorem Sound.feed (h : Sound u sizes seen) (hpos : ∀ n ∈ sizes, 0 < n) {front : List UInt8}
    (hfront : front.length ≤ u.remaining) : Sound (u.feed front) sizes (seen ++ front) := by
  have hrest := h.rest
  have hpieces : u.hashers.modify u.fileIndex (· ++ front) = pieces sizes (seen ++ front) := by
    rw [h.hashers, pieces_append h.start (by omega) h.index]
  have hlen : (seen ++ front).length = seen.length + front.length := List.length_append
  unfold UploadHashes.feed
  simp only [h.same]
  split
  · rename_i hnext
    obtain ⟨hzero, hlt⟩ := hnext
    obtain ⟨n, hn⟩ : ∃ n, sizes[u.fileIndex + 1]? = some n := ⟨_, List.getElem?_eq_getElem hlt⟩
    have hsize : 0 < n := hpos n (List.mem_of_getElem? hn)
    have hget : sizes.getD (u.fileIndex + 1) 0 = n := by
      rw [List.getD_eq_getElem?_getD, hn]
      rfl
    have hoff := offset_succ hn
    refine ⟨rfl, hpieces, hlt, ?_, ?_, ?_⟩
    · show offset sizes (u.fileIndex + 1) ≤ (seen ++ front).length
      omega
    · show sizes.getD (u.fileIndex + 1) 0 + (seen ++ front).length
        = offset sizes (u.fileIndex + 1 + 1)
      omega
    · intro (hnone : sizes.getD (u.fileIndex + 1) 0 = 0)
      omega
  · rename_i hstay
    have hstart := h.start
    refine ⟨rfl, hpieces, h.index, ?_, ?_, ?_⟩
    · show offset sizes u.fileIndex ≤ (seen ++ front).length
      omega
    · show u.remaining - front.length + (seen ++ front).length = offset sizes (u.fileIndex + 1)
      omega
    · intro (hzero : u.remaining - front.length = 0)
      show u.fileIndex + 1 = sizes.length
      have hindex := h.index
      by_contra hne
      exact hstay ⟨hzero, Nat.lt_of_le_of_ne hindex hne⟩

@[simp] theorem received_feed (u : UploadHashes) (front : List UInt8) :
    (u.feed front).received = u.received := by
  unfold UploadHashes.feed
  simp only
  split <;> rfl

@[simp] theorem total_feed (u : UploadHashes) (front : List UInt8) :
    (u.feed front).total = u.total := by
  unfold UploadHashes.feed
  simp only
  split <;> rfl

/-- The loop ends after one round for each byte at most. -/
theorem consumeLoop_sound (hpos : ∀ n ∈ sizes, 0 < n) {rounds : ℕ} (h : Sound u sizes seen)
    (hrounds : data.length ≤ rounds) (hfits : seen.length + data.length ≤ sizes.sum) :
    ∃ v, consumeLoop rounds u data = some v ∧ Sound v sizes (seen ++ data) ∧
      v.received = u.received ∧ v.total = u.total := by
  induction rounds generalizing u seen data with
  | zero =>
    obtain rfl := List.length_eq_zero_iff.mp (Nat.le_zero.mp hrounds)
    exact ⟨u, rfl, by rw [List.append_nil]; exact h, rfl, rfl⟩
  | succ rounds ih =>
    cases data with
    | nil => exact ⟨u, rfl, by rw [List.append_nil]; exact h, rfl, rfl⟩
    | cons b rest =>
      have hcons : (b :: rest).length = rest.length + 1 := List.length_cons
      have hroom : 0 < u.remaining := h.room (by omega)
      let take := min (b :: rest).length u.remaining
      have htake : ((b :: rest).take take).length = take := by
        rw [List.length_take]
        omega
      have hdrop : ((b :: rest).drop take).length = (b :: rest).length - take := List.length_drop
      have hfeed : Sound (u.feed ((b :: rest).take take)) sizes (seen ++ (b :: rest).take take) :=
        h.feed hpos (by rw [htake]; omega)
      have hsum : (seen ++ (b :: rest).take take).length + ((b :: rest).drop take).length
          ≤ sizes.sum := by
        rw [List.length_append, htake, hdrop]
        omega
      obtain ⟨v, hv, hsound, hreceived, htotal⟩ := ih hfeed (by rw [hdrop]; omega) hsum
      have hindex : u.fileIndex < u.hashers.length := by
        rw [h.hashers, length_pieces]
        exact h.index
      rw [List.append_assoc, List.take_append_drop] at hsound
      refine ⟨v, ?_, hsound, ?_, ?_⟩
      · rw [consumeLoop, if_pos hindex]
        exact hv
      · rw [hreceived, received_feed]
      · rw [htotal, total_feed]

/-- What the Gateway knows about an upload, with its counters. -/
structure Counts (u : UploadHashes) (sizes : List ℕ) (seen : List UInt8) : Prop where
  sound : Sound u sizes seen
  received : u.received = seen.length
  total : u.total = sizes.sum

/-- **A chunk at the Gateway.**  The call returns, counts the chunk and gives each byte to its
    file. -/
theorem consume_sound (hpos : ∀ n ∈ sizes, 0 < n) (h : Counts u sizes seen) (hdata : data ≠ [])
    (hchunk : data.length ≤ maxChunk) (hfits : seen.length + data.length ≤ sizes.sum) :
    ∃ v, u.consume data = some (.ok (seen ++ data).length, v) ∧ Counts v sizes (seen ++ data) := by
  have hloop : Sound { u with received := u.received + data.length } sizes seen :=
    ⟨h.sound.same, h.sound.hashers, h.sound.index, h.sound.start, h.sound.rest, h.sound.eager⟩
  obtain ⟨v, hv, hsound, hreceived, htotal⟩ := consumeLoop_sound hpos hloop (Nat.le_refl _) hfits
  have hlen : v.received = (seen ++ data).length := by
    rw [hreceived, List.length_append]
    exact congrArg (· + data.length) h.received
  refine ⟨v, ?_, hsound, hlen, htotal.trans h.total⟩
  have hpass : ¬(data = [] ∨ maxChunk < data.length ∨ u.total - u.received < data.length) := by
    rw [h.total, h.received]
    rintro (hnil | hbig | hmuch)
    · exact hdata hnil
    · omega
    · omega
  unfold consume
  rw [if_neg hpass]
  simp only
  rw [hv, Option.map_some, hlen]

/-- A chunk that is too long is refused and changes nothing. -/
theorem consume_excess (h : Counts u sizes seen) (hmuch : sizes.sum < seen.length + data.length) :
    u.consume data = some (.error .size, u) := by
  have hrefused : u.total - u.received < data.length ∨ data = [] := by
    rw [h.total, h.received]
    cases data with
    | nil => exact .inr rfl
    | cons b rest => rw [List.length_cons] at hmuch ⊢; omega
  unfold consume
  rw [if_pos]
  rcases hrefused with hlt | hnil
  · exact .inr (.inr hlt)
  · exact .inl hnil

end UploadHashes

/-! ### Home

The same partition, with files that are created when their first byte comes and hashed when their
last one has come. -/

namespace Home

variable {h : Pb.UploadHeader} {seen data : List UInt8}

/-- The sizes of the files of a header. -/
def sizes (h : Pb.UploadHeader) : List ℕ := h.files.map fileSize

theorem fileName_toList (h : Pb.UploadHeader) (i : ℕ) :
    ∃ tail, (fileName h i).toList = ['f', 'i', 'l', 'e', '-'] ++ pad4 (i + 1) ++ tail := by
  unfold fileName
  simp only
  split
  · exact ⟨[], by simp⟩
  · exact ⟨'.' :: (((h.files[i]?).map (·.extension)).getD "").toList, by simp⟩

/-- The files of a stage have different names. -/
theorem fileName_inj {i j : ℕ} (hi : i < 16) (hj : j < 16) (heq : fileName h i = fileName h j) :
    i = j := by
  have hpad : ∀ i j : Fin 16, pad4 (i + 1) = pad4 (j + 1) → i = j := by decide
  have hlen : ∀ i : Fin 16, (pad4 (i + 1)).length = 4 := by decide
  obtain ⟨tail, htail⟩ := fileName_toList h i
  obtain ⟨tail', htail'⟩ := fileName_toList h j
  rw [heq, htail', List.append_assoc, List.append_assoc] at htail
  have hrest := List.append_cancel_left htail
  obtain ⟨hnumber, -⟩ := List.append_inj hrest ((hlen ⟨j, hj⟩).trans (hlen ⟨i, hi⟩).symm)
  exact (congrArg Fin.val (hpad ⟨j, hj⟩ ⟨i, hi⟩ hnumber)).symm

/-- The first `n` files of an upload of which `seen` has come. -/
def dirOf (h : Pb.UploadHeader) (seen : List UInt8) (n : ℕ) : List (String × List UInt8) :=
  (List.range n).map fun i => (fileName h i, (pieces (sizes h) seen).getD i [])

theorem dirOf_succ (n : ℕ) : dirOf h seen (n + 1)
    = dirOf h seen n ++ [(fileName h n, (pieces (sizes h) seen).getD n [])] := by
  rw [dirOf, List.range_succ, List.map_append]
  rfl

/-- Bytes for file `k` go to file `k`. -/
theorem appendTo_dirOf {front : List UInt8} {k n : ℕ} (hk : k < n) (hn : n ≤ 16)
    (hlt : k < (sizes h).length)
    (hpieces : pieces (sizes h) (seen ++ front) = (pieces (sizes h) seen).modify k (· ++ front)) :
    appendTo (dirOf h seen n) (fileName h k) front = dirOf h (seen ++ front) n := by
  unfold appendTo dirOf
  rw [List.map_map]
  refine List.map_congr_left fun i hi => ?_
  have hin : i < n := List.mem_range.mp hi
  simp only [Function.comp_apply, hpieces, List.getD_eq_getElem?_getD, List.getElem?_modify]
  by_cases hik : k = i
  · subst hik
    have hget : (pieces (sizes h) seen)[k]? = some ((pieces (sizes h) seen).get ⟨k, by
        rw [length_pieces]; exact hlt⟩) := List.getElem?_eq_getElem _
    rw [if_pos rfl, hget]
    simp
  · have hname : fileName h i ≠ fileName h k :=
      fun heq => hik (fileName_inj (by omega) (by omega) heq).symm
    rw [if_neg hname]
    simp [hik]

namespace Stage

variable {sha256 : List UInt8 → Vector UInt8 32} {s : Stage}

/-- After the bytes `seen`, every file that was started has its piece, those that are full have
    their hash, and the next byte goes to the open file or to the first one not started. -/
structure Sound (sha256 : List UInt8 → Vector UInt8 32) (s : Stage) (h : Pb.UploadHeader)
    (seen : List UInt8) : Prop where
  same : s.header = h
  stage : validId s.stageId = true
  live : s.failed = false ∧ s.finalName = none
  total : s.totalWritten = seen.length
  few : s.hashes.length ≤ h.files.length
  hashes : s.hashes = ((pieces (sizes h) seen).take s.hashes.length).map fun fed =>
    hexDigest (sha256 fed)
  dir : s.dir = dirOf h seen (s.hashes.length + s.current.toList.length)
  closed : s.current = none → offset (sizes h) s.hashes.length = seen.length
  opened : ∀ c, s.current = some c → c.file = fileName h s.hashes.length ∧
    c.hash = (pieces (sizes h) seen).getD s.hashes.length [] ∧
    offset (sizes h) s.hashes.length + c.written = seen.length ∧
    seen.length < offset (sizes h) (s.hashes.length + 1)

theorem Sound.check (hs : Sound sha256 s h seen) : s.check Io.fine = .ok () := by
  unfold Stage.check
  rw [hs.live.1, hs.live.2, if_neg (by simp)]
  rfl

/-- The file of the next byte is open, or can be created. -/
theorem Sound.openCurrent (hs : Sound sha256 s h seen) (hfew : h.files.length ≤ 16)
    {n : ℕ} (hn : (sizes h)[s.hashes.length]? = some n) (hpos : 0 < n) :
    ∃ c, s.openCurrent Io.fine = .ok
        (c, { s with dir := dirOf h seen (s.hashes.length + 1), current := some c }) ∧
      c.file = fileName h s.hashes.length ∧
      c.hash = (pieces (sizes h) seen).getD s.hashes.length [] ∧
      offset (sizes h) s.hashes.length + c.written = seen.length ∧ c.written < n := by
  have hlt : s.hashes.length < (sizes h).length := (List.getElem?_eq_some_iff.mp hn).1
  rw [sizes, List.length_map] at hlt
  have hoff := offset_succ hn
  -- the file of the next byte is open, or it is created now
  unfold Stage.openCurrent
  cases hcurrent : s.current with
  | some c =>
    obtain ⟨hfile, hhash, hwritten, hopen⟩ := hs.opened c hcurrent
    refine ⟨c, ?_, hfile, hhash, hwritten, by omega⟩
    have hdir := hs.dir
    rw [hcurrent] at hdir
    have hsame : s = { s with dir := dirOf h seen (s.hashes.length + 1), current := some c } := by
      cases s
      simp_all
    exact congrArg (fun t => Except.ok (c, t)) hsame
  | none =>
    have hstart := hs.closed hcurrent
    have hdir := hs.dir
    rw [hcurrent] at hdir
    have hempty : (pieces (sizes h) seen).getD s.hashes.length [] = [] := by
      rw [List.getD_eq_getElem?_getD, getElem?_pieces hn, hstart, List.drop_length, List.take_nil]
      rfl
    -- its name is new, for names are numbered
    have hnew : fileName h s.hashes.length ∉ s.dir.map Prod.fst := by
      intro hmem
      rw [hdir] at hmem
      obtain ⟨e, he, hname⟩ := List.mem_map.mp hmem
      obtain ⟨i, hi, rfl⟩ := List.mem_map.mp he
      have hin : i < s.hashes.length := List.mem_range.mp hi
      have heq := fileName_inj (by omega) (by omega) hname
      omega
    have hcreate : ¬((!Io.fine.create (fileName s.header s.hashes.length)) = true ∨
        fileName s.header s.hashes.length ∈ s.dir.map Prod.fst) := by
      rw [hs.same]
      rintro (hfail | hmem)
      · cases hfail
      · exact hnew hmem
    refine ⟨{ file := fileName h s.hashes.length, hash := [], written := 0 }, ?_, rfl, hempty.symm,
      by simpa using hstart, hpos⟩
    simp only
    rw [if_neg hcreate, hs.same, dirOf_succ, hempty, hdir]
    rfl

/-- Before the last byte there is a file for the next one. -/
theorem Sound.next (hs : Sound sha256 s h seen) (hlt : seen.length < (sizes h).sum) :
    s.hashes.length < h.files.length := by
  refine Nat.lt_of_le_of_ne hs.few fun hall => ?_
  have hsum : offset (sizes h) s.hashes.length = (sizes h).sum := by
    rw [hall, ← offset_length, sizes, List.length_map]
  cases hcurrent : s.current with
  | none =>
    have hstart := hs.closed hcurrent
    omega
  | some c =>
    obtain ⟨-, -, hwritten, -⟩ := hs.opened c hcurrent
    omega

/-- What a round leaves, by whether the file is full now. -/
theorem writeRound_fine {f : Pb.FileHeader} {c : CurrentFile} {s₁ : Stage}
    (hcheck : s.check Io.fine = .ok ()) (hfile : s.header.files[s.hashes.length]? = some f)
    (hopen : s.openCurrent Io.fine = .ok (c, s₁)) (hroom : c.written ≤ fileSize f)
    {amount : ℕ} (hamount : amount = min (fileSize f - c.written) data.length) :
    s.writeRound sha256 Io.fine data =
      (.ok (data.drop amount),
        { s₁ with
          dir := appendTo s₁.dir c.file (data.take amount)
          totalWritten := s₁.totalWritten + amount
          current := if c.written + amount = fileSize f then none
            else some { c with hash := c.hash ++ data.take amount, written := c.written + amount }
          hashes := if c.written + amount = fileSize f then
              s₁.hashes ++ [hexDigest (sha256 (c.hash ++ data.take amount))]
            else s₁.hashes }) := by
  have happend : Io.fine.append c.file c.written = none := rfl
  unfold Stage.writeRound
  rw [hcheck]
  simp only
  rw [hfile]
  simp only
  rw [hopen]
  simp only
  rw [if_neg (Nat.not_lt.mpr hroom), happend]
  simp only [← hamount]
  split
  · rfl
  · rfl

/-- **A round at Home.**  The file of the next byte gets what fits into it. -/
theorem Sound.round (hs : Sound sha256 s h seen) (hf : HeaderFacts h) (hdata : data ≠ [])
    (hfits : seen.length + data.length ≤ (sizes h).sum) :
    ∃ amount s', 0 < amount ∧ s.writeRound sha256 Io.fine data = (.ok (data.drop amount), s') ∧
      Sound sha256 s' h (seen ++ data.take amount) := by
  have hsome : 0 < data.length := List.length_pos_iff.mpr hdata
  have hlt := hs.next (by omega)
  have hfew : h.files.length ≤ 16 := by
    have := UInt32.le_iff_toNat_le.mp hf.few
    rw [hf.count] at this
    exact this
  -- the round is for the file after those that have their hash
  obtain ⟨f, hfile⟩ : ∃ f, h.files[s.hashes.length]? = some f := ⟨_, List.getElem?_eq_getElem hlt⟩
  have hn : (sizes h)[s.hashes.length]? = some (fileSize f) := by
    rw [sizes, List.getElem?_map, hfile]
    rfl
  have hpos : 0 < fileSize f := by
    have hsize := hf.size_pos f (List.mem_of_getElem? hfile)
    unfold fileSize
    omega
  obtain ⟨c, hopen, hname, hhash, hwritten, hroom⟩ := hs.openCurrent hfew hn hpos
  have hoff := offset_succ hn
  have hklt : s.hashes.length < (sizes h).length := by rw [sizes, List.length_map]; exact hlt
  -- as much as fits into the file
  let amount := min (fileSize f - c.written) data.length
  have hamount : amount = min (fileSize f - c.written) data.length := rfl
  have htake : (data.take amount).length = amount := by rw [List.length_take]; omega
  -- only the piece of this file grows
  have hpieces : pieces (sizes h) (seen ++ data.take amount)
      = (pieces (sizes h) seen).modify s.hashes.length (· ++ data.take amount) :=
    pieces_append (by omega) (by omega) hklt
  have hpiece : (pieces (sizes h) (seen ++ data.take amount)).getD s.hashes.length []
      = c.hash ++ data.take amount := by
    obtain ⟨piece, hget⟩ : ∃ piece, (pieces (sizes h) seen)[s.hashes.length]? = some piece :=
      ⟨_, getElem?_pieces hn⟩
    rw [hhash, hpieces, List.getD_eq_getElem?_getD, List.getD_eq_getElem?_getD,
      List.getElem?_modify, hget]
    simp
  have hbefore : (pieces (sizes h) (seen ++ data.take amount)).take s.hashes.length
      = (pieces (sizes h) seen).take s.hashes.length := by
    rw [hpieces, List.take_modify, List.modify_eq_self]
    rw [List.length_take]
    omega
  have hdir : appendTo (dirOf h seen (s.hashes.length + 1)) c.file (data.take amount)
      = dirOf h (seen ++ data.take amount) (s.hashes.length + 1) := by
    rw [hname]
    exact appendTo_dirOf (Nat.lt_succ_self _) (by omega) hklt hpieces
  have hwrite : s.writeRound sha256 Io.fine data = (.ok (data.drop amount), _) :=
    writeRound_fine hs.check (hs.same ▸ hfile) hopen hroom.le hamount
  refine ⟨amount, _, by omega, hwrite, ?_⟩
  have hlen : (seen ++ data.take amount).length = seen.length + amount := by
    rw [List.length_append, htake]
  have htotal : s.totalWritten + amount = (seen ++ data.take amount).length := by
    rw [hlen, hs.total]
  -- is the file full now?
  by_cases hfull : c.written + amount = fileSize f
  · -- The file is full: its hash is the next one.
    simp only [if_pos hfull]
    refine ⟨hs.same, hs.stage, hs.live, htotal, ?_, ?_, ?_, ?_, nofun⟩
    · show (s.hashes ++ [_]).length ≤ h.files.length
      rw [List.length_append]
      exact hlt
    · show s.hashes ++ [_] = ((pieces (sizes h) _).take (s.hashes ++ [_]).length).map _
      have hget : (pieces (sizes h) (seen ++ data.take amount))[s.hashes.length]?
          = some (c.hash ++ data.take amount) := by
        rw [← hpiece, List.getD_eq_getElem?_getD, getElem?_pieces hn]
        rfl
      rw [List.length_append, List.length_singleton, List.take_add_one, hget, List.map_append,
        hbefore, ← hs.hashes]
      rfl
    · show appendTo _ c.file _ = dirOf h _ ((s.hashes ++ [_]).length + 0)
      rw [hdir, List.length_append]
      rfl
    · intro _
      show offset (sizes h) (s.hashes ++ [_]).length = _
      rw [List.length_append, List.length_singleton, hoff, hlen]
      omega
  -- the file stays open
  · simp only [if_neg hfull]
    refine ⟨hs.same, hs.stage, hs.live, htotal, hs.few, ?_, hdir, nofun, ?_⟩
    · rw [hbefore]
      exact hs.hashes
    · intro c' hc'
      obtain rfl := Option.some.inj hc'
      refine ⟨hname, hpiece.symm, ?_, ?_⟩
      · show offset (sizes h) s.hashes.length + (c.written + amount) = _
        rw [hlen]
        omega
      · show _ < offset (sizes h) (s.hashes.length + 1)
        rw [hlen, hoff]
        omega

/-- The loop ends after one round for each byte at most. -/
theorem writeInner_sound {rounds : ℕ} (hs : Sound sha256 s h seen) (hf : HeaderFacts h)
    (hrounds : data.length ≤ rounds) (hfits : seen.length + data.length ≤ (sizes h).sum) :
    ∃ s', s.writeInner sha256 Io.fine rounds data = some (.ok (seen ++ data).length, s') ∧
      Sound sha256 s' h (seen ++ data) := by
  induction rounds generalizing s seen data with
  | zero =>
    obtain rfl := List.length_eq_zero_iff.mp (Nat.le_zero.mp hrounds)
    rw [List.append_nil]
    exact ⟨s, by rw [writeInner, hs.total], hs⟩
  | succ rounds ih =>
    cases data with
    | nil =>
      rw [List.append_nil]
      exact ⟨s, by rw [writeInner, hs.total], hs⟩
    | cons b rest =>
      obtain ⟨amount, s₁, hamount, hround, hsound⟩ := hs.round hf (List.cons_ne_nil b rest) hfits
      have hcons : (b :: rest).length = rest.length + 1 := List.length_cons
      have hsplit : ((b :: rest).take amount).length + ((b :: rest).drop amount).length
          = (b :: rest).length := by
        rw [← List.length_append, List.take_append_drop]
      have hdrop : ((b :: rest).drop amount).length = (b :: rest).length - amount :=
        List.length_drop
      have hleft : ((b :: rest).drop amount).length ≤ rounds := by omega
      have hsum : (seen ++ (b :: rest).take amount).length + ((b :: rest).drop amount).length
          ≤ (sizes h).sum := by
        rw [List.length_append]
        omega
      obtain ⟨s', hinner, hall⟩ := ih hsound hleft hsum
      rw [List.append_assoc, List.take_append_drop] at hinner hall
      refine ⟨s', ?_, hall⟩
      rw [writeInner, hround]
      exact hinner

/-- **A chunk at Home.**  The call returns, counts the chunk and gives each byte to its file. -/
theorem write_sound (hs : Sound sha256 s h seen) (hf : HeaderFacts h)
    (hchunk : data.length ≤ chunkMax) (hfits : seen.length + data.length ≤ (sizes h).sum) :
    ∃ s', s.write sha256 Io.fine data = some (.ok (seen ++ data).length, s') ∧
      Sound sha256 s' h (seen ++ data) := by
  obtain ⟨s', hinner, hsound⟩ := writeInner_sound hs hf (Nat.le_refl _) hfits
  refine ⟨s', ?_, hsound⟩
  have htotal : s.header.totalBytes.toInt.toNat = (sizes h).sum := by
    rw [hs.same, sizes, hf.total]
  unfold Stage.write
  rw [hs.check]
  simp only
  rw [if_neg, hinner]
  · rfl
  · rw [htotal, hs.total]
    omega

/-- A chunk that is too long is refused before it is counted, and the stage is given up. -/
theorem write_excess (hs : Sound sha256 s h seen) (hf : HeaderFacts h)
    (hmuch : (sizes h).sum < seen.length + data.length) :
    s.write sha256 Io.fine data = some (.error .size, { s with failed := true }) := by
  have htotal : s.header.totalBytes.toInt.toNat = (sizes h).sum := by
    rw [hs.same, sizes, hf.total]
  unfold Stage.write
  rw [hs.check]
  simp only
  rw [if_pos]
  rw [htotal, hs.total]
  exact .inr hmuch

/-- What `begin` fixes for the life of a stage. -/
structure Keeps (s s' : Stage) : Prop where
  startedUnix : s'.startedUnix = s.startedUnix
  stageId : s'.stageId = s.stageId

theorem Keeps.trans {s₁ s₂ s₃ : Stage} (h₁ : Keeps s₁ s₂) (h₂ : Keeps s₂ s₃) : Keeps s₁ s₃ :=
  ⟨h₂.startedUnix.trans h₁.startedUnix, h₂.stageId.trans h₁.stageId⟩

theorem openCurrent_keeps {io : Io} {c : CurrentFile} {s' : Stage}
    (hopen : s.openCurrent io = .ok (c, s')) : Keeps s s' := by
  unfold Stage.openCurrent at hopen
  split at hopen
  · cases hopen
    exact ⟨rfl, rfl⟩
  · simp only at hopen
    split at hopen
    · cases hopen
    · cases hopen
      exact ⟨rfl, rfl⟩

theorem writeRound_keeps (io : Io) (s : Stage) (data : List UInt8) :
    Keeps s (s.writeRound sha256 io data).2 := by
  unfold Stage.writeRound
  split
  · exact ⟨rfl, rfl⟩
  split
  · exact ⟨rfl, rfl⟩
  simp only
  split
  · exact ⟨rfl, rfl⟩
  rename_i hopen
  -- Whatever the round does to the file, it does to the stage with the file open.
  refine (openCurrent_keeps hopen).trans ?_
  split
  · exact ⟨rfl, rfl⟩
  split
  · exact ⟨rfl, rfl⟩
  split
  · split <;> exact ⟨rfl, rfl⟩
  · exact ⟨rfl, rfl⟩

theorem writeInner_keeps {io : Io} {rounds : ℕ} {s' : Stage} {answer : Except Error ℕ}
    (hinner : s.writeInner sha256 io rounds data = some (answer, s')) : Keeps s s' := by
  induction rounds generalizing s data with
  | zero =>
    cases data with
    | nil => cases hinner; exact ⟨rfl, rfl⟩
    | cons b rest => cases hinner
  | succ rounds ih =>
    cases data with
    | nil => cases hinner; exact ⟨rfl, rfl⟩
    | cons b rest =>
      have hround : Keeps s (s.writeRound sha256 io (b :: rest)).2 := writeRound_keeps io s _
      unfold Stage.writeInner at hinner
      cases hresult : s.writeRound sha256 io (b :: rest) with
      | mk r s₁ =>
        rw [hresult] at hinner hround
        cases r with
        | error e => cases hinner; exact hround
        | ok left => exact hround.trans (ih hinner)

/-- **The start of an upload and its id stay what they were**, whatever the file system does. -/
theorem write_keeps {io : Io} {s' : Stage} {answer : Except Error ℕ}
    (hwrite : s.write sha256 io data = some (answer, s')) : Keeps s s' := by
  unfold Stage.write at hwrite
  split at hwrite
  · cases hwrite
    exact ⟨rfl, rfl⟩
  split at hwrite
  · cases hwrite
    exact ⟨rfl, rfl⟩
  obtain ⟨⟨r, s₁⟩, hinner, hlast⟩ := Option.map_eq_some_iff.mp hwrite
  have hkept := writeInner_keeps hinner
  cases r with
  | error e => cases hlast; exact hkept.trans ⟨rfl, rfl⟩
  | ok n => cases hlast; exact hkept

theorem begin_sound (sha256 : List UInt8 → Vector UInt8 32) (h : Pb.UploadHeader)
    (entropy : Vector UInt8 16) (startedUnix : Int64) :
    Sound sha256 (Stage.begin h entropy startedUnix) h [] :=
  ⟨rfl, newStageId_valid entropy, ⟨rfl, rfl⟩, rfl, Nat.zero_le _, rfl, rfl, fun _ => offset_zero,
    nofun⟩

end Stage

end Home

end Hmux.Upload
