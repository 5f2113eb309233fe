import Hmux.Home.ProviderEdits
import Hmux.Lib.Json.PrettyReader

namespace Hmux.Home

/-!
# Provider edits and their readers

The edits of the four files, with what their readers find afterwards.

* `setDotenv_ok`, `setDotenv_again`, `setDotenv_error` — an edit of `.env`;
* `claudeKey_of_ok`, `memberAt` — what the readers of JSON files find;
* `edits_keep_settings` — **an edit changes the key only**.
-/

open Lib Lib.Json
open Usage (isWhitespace)

/-! ### Valid keys

A key has no character that a reader of `.env` would take away. -/

/-- The characters of a text whose bytes are ASCII. -/
theorem mem_bytes_of_ascii {s : String} (h : ∀ b ∈ bytes s, b < 128) :
    ∀ c ∈ s.toList, c.toNat < 128 ∧ UInt8.ofNat c.toNat ∈ bytes s := by
  intro c hc
  have hsub : ∀ b ∈ String.utf8EncodeChar c, b ∈ bytes s := by
    intro b hb
    rw [bytes_eq_flatMap]
    exact List.mem_flatMap.mpr ⟨c, hc, hb⟩
  have hlow : ∀ n : ℕ, UInt8.ofNat n ∈ bytes s → n < 256 → n < 128 := by
    intro n hn hlt
    have hbyte : (UInt8.ofNat n).toNat < 128 := h _ hn
    rw [UInt8.toNat_ofNat', Nat.mod_eq_of_lt hlt] at hbyte
    exact hbyte
  -- the first byte of a longer character is not ASCII
  unfold String.utf8EncodeChar at hsub
  have hval : c.val.toNat = c.toNat := rfl
  simp only [hval] at hsub
  split_ifs at hsub with hone htwo hthree
  · exact ⟨Nat.lt_succ_of_le hone, hsub _ List.mem_cons_self⟩
  · have := hlow _ (hsub _ List.mem_cons_self) (by omega)
    omega
  · have := hlow _ (hsub _ List.mem_cons_self) (by omega)
    omega
  · have := hlow _ (hsub _ List.mem_cons_self) (by omega)
    omega

theorem ascii_of_validKey {key : String} (h : validKey key = true) : ∀ b ∈ bytes key, b < 128 := by
  unfold validKey at h
  rw [Bool.and_eq_true, List.all_eq_true] at h
  intro b hb
  have hone := h.2 b hb
  simp only [Bool.or_eq_true, Bool.and_eq_true, decide_eq_true_eq, UInt8.le_iff_toNat_le,
    ← UInt8.toNat_inj] at hone
  rw [UInt8.lt_iff_toNat_lt]
  simp at hone ⊢
  omega

/-- The last characters of a valid key are its last bytes. -/
theorem bytes_keySuffix {key : String} (h : validKey key = true) :
    bytes (keySuffix key) = (bytes key).drop ((bytes key).length - 20) := by
  have hsize : ∀ c ∈ key.toList, c.utf8Size = 1 := by
    intro c hc
    obtain ⟨hlt, -⟩ := mem_bytes_of_ascii (ascii_of_validKey h) c hc
    have hle : c.val ≤ 0x7f := Nat.le_of_lt_succ hlt
    exact if_pos hle
  have hkey : bytes key = key.toList.map fun c => c.val.toUInt8 := by
    rw [← bytes_ofList hsize, String.ofList_toList]
  unfold keySuffix
  rw [bytes_ofList fun c hc => hsize c (List.mem_of_mem_drop hc), hkey, List.map_drop,
    List.length_map]

/-- A valid key is read as it is written. -/
theorem plainValue_of_validKey {key : String} (h : validKey key = true) :
    PlainValue key.toList := by
  have hascii := ascii_of_validKey h
  unfold validKey at h
  rw [Bool.and_eq_true, List.all_eq_true] at h
  have hall : ∀ n ∈ List.range 128, ((48 ≤ UInt8.ofNat n && UInt8.ofNat n ≤ 57) ||
      (65 ≤ UInt8.ofNat n && UInt8.ofNat n ≤ 90) || (97 ≤ UInt8.ofNat n && UInt8.ofNat n ≤ 122) ||
      decide (UInt8.ofNat n = 46) || decide (UInt8.ofNat n = 95) || decide
        (UInt8.ofNat n = 45)) = true →
      isWhitespace (Char.ofNat n) = false ∧ isQuote (Char.ofNat n) = false := by
    apply forall_of_all
    decide
  intro c hc
  obtain ⟨hlt, hmem⟩ := mem_bytes_of_ascii hascii c hc
  have hgood := hall c.toNat (List.mem_range.mpr hlt) (h.2 _ hmem)
  rwa [Char.ofNat_toNat] at hgood

/-! ### Editing `.env`

The same facts as for JSON files: what was written, that a failure leaves the file, and what the
edit does when it is made again. -/

/-- The text of a file, `""` where there is none. -/
def textOf (content : Option (List UInt8)) : Option String := utf8 (content.getD [])

/-- A text as an edit that changes no line writes it: each line as `str::lines` reads it, with a
    line feed. -/
def relined (raw : List UInt8) : List UInt8 :=
  match utf8 raw with
  | none => raw
  | some text => bytes (String.ofList (unlines (strLines text.toList)))

section

variable {name value key : String} {calls : EditCalls} {p : Place} {text : String}

/-- What an edit writes, from the text before. -/
def dotenvBytes (name value text : String) : List UInt8 :=
  bytes (String.ofList (unlines (editedLines name.toList value.toList (strLines text.toList))))

theorem dotenvValue_of_text {content : Option (List UInt8)}
    (hread : readExisting .fine settingsLimit p = .ok content)
    (htext : textOf content = some text) :
    dotenvValue .fine key p = String.ofList (dotenvText key.toList text.toList) := by
  unfold dotenvValue
  rw [read_fine hread]
  cases content with
  | none =>
    obtain rfl : text = "" := by
      have hempty : utf8 (bytes "") = some text := htext
      rw [utf8_bytes] at hempty
      exact (Option.some.inj hempty).symm
    rfl
  | some raw =>
    have hraw : utf8 raw = some text := htext
    dsimp only
    rw [hraw]

/-- **A successful edit** of `.env`: the text before it, and what was written. -/
theorem setDotenv_ok (h : (setDotenv name value calls p).2 = .ok ()) :
    ∃ content text, readExisting .fine settingsLimit p = .ok content ∧ textOf content = some text ∧
      ((value = "" ∧ (strLines text.toList).any (isLineOf name.toList) = false ∧
          (setDotenv name value calls p).1 = p) ∨
        readExisting .fine settingsLimit (setDotenv name value calls p).1 =
          .ok (some (dotenvBytes name value text))) := by
  unfold setDotenv at h ⊢
  cases hread : readExisting calls.first settingsLimit p with
  | error e =>
    rw [hread] at h
    cases h
  | ok content =>
    rw [hread] at h
    dsimp only at h ⊢
    cases htext : utf8 (content.getD []) with
    | none =>
      rw [htext] at h
      cases h
    | some text =>
      rw [htext] at h
      dsimp only at h ⊢
      refine ⟨content, text, (readExisting_ok hread).2, htext, ?_⟩
      by_cases hnone : value.toList = [] ∧ (strLines text.toList).any (isLineOf name.toList) = false
      · have hedit : dotenvEdit name.toList value.toList text.toList = none :=
          (dotenvEdit_eq _).trans (if_pos hnone)
        rw [hedit]
        exact .inl ⟨String.toList_eq_nil_iff.mp hnone.1, hnone.2, rfl⟩
      · have hedit : dotenvEdit name.toList value.toList text.toList =
            some (unlines (editedLines name.toList value.toList (strLines text.toList))) :=
          (dotenvEdit_eq _).trans (if_neg hnone)
        rw [hedit] at h ⊢
        exact .inr ((save_spec _ _ _ _).1 h)

/-- **An edit that fails** before its write leaves the file as it was. -/
theorem setDotenv_error {e : ProviderError} (h : (setDotenv name value calls p).2 = .error e)
    (hwrite : e ≠ writeFailed ∨ calls.save.write = .beforeCommit) :
    (setDotenv name value calls p).1.entry = p.entry := by
  unfold setDotenv at h ⊢
  cases hread : readExisting calls.first settingsLimit p with
  | error e => rfl
  | ok content =>
    rw [hread] at h
    dsimp only at h ⊢
    cases htext : utf8 (content.getD []) with
    | none => rfl
    | some text =>
      rw [htext] at h
      dsimp only at h ⊢
      cases hedit : dotenvEdit name.toList value.toList text.toList with
      | none => rfl
      | some data =>
        rw [hedit] at h
        exact (save_spec _ _ _ _).2.2 e h hwrite

theorem utf8_ofList (l : List Char) : utf8 (bytes (String.ofList l)) = some (String.ofList l) :=
  utf8_bytes _

/-- **What is read** after a successful edit. -/
theorem setDotenv_reads (hname : PlainName name.toList) (hvalue : PlainValue value.toList)
    (h : (setDotenv name value calls p).2 = .ok ()) :
    dotenvValue .fine name (setDotenv name value calls p).1 = value ∧
      ∀ other, other ≠ name →
        dotenvValue .fine other (setDotenv name value calls p).1 = dotenvValue .fine other p := by
  obtain ⟨content, text, hread, htext, hcase⟩ := setDotenv_ok h
  rcases hcase with ⟨rfl, habsent, hsame⟩ | hwritten
  · rw [hsame]
    refine ⟨?_, fun _ _ => rfl⟩
    rw [dotenvValue_of_text hread htext, dotenvText_absent habsent]
  · have hnew : textOf (some (dotenvBytes name value text)) = some (String.ofList (unlines
        (editedLines name.toList value.toList (strLines text.toList)))) := utf8_ofList _
    constructor
    · rw [dotenvValue_of_text hwritten hnew, String.toList_ofList, dotenvEdit_value hname hvalue,
        String.ofList_toList]
    · intro other hother
      have hne : other.toList ≠ name.toList := fun heq => hother (String.toList_inj.mp heq)
      rw [dotenvValue_of_text hwritten hnew, String.toList_ofList,
        dotenvEdit_frame hname hvalue hne, dotenvValue_of_text hread htext]

/-- A text with a carriage return before a line feed has their bytes. -/
theorem crlf_bytes {text : List Char} (h : ['\r', '\n'] <:+: text) :
    [13, 10] <:+: bytes (String.ofList text) := by
  obtain ⟨before, after, rfl⟩ := h
  refine ⟨before.flatMap String.utf8EncodeChar, after.flatMap String.utf8EncodeChar, ?_⟩
  rw [bytes_eq_flatMap, String.toList_ofList, List.flatMap_append, List.flatMap_append]
  rfl

theorem relined_unlines {lines : List (List Char)} (h : ∀ line ∈ lines, '\n' ∉ line) :
    relined (bytes (String.ofList (unlines lines))) =
      bytes (String.ofList (unlines (lines.map withoutReturn))) := by
  unfold relined
  rw [utf8_ofList]
  dsimp only
  rw [String.toList_ofList, strLines_unlines h]

/-- **The same edit again** leaves the content as it is, but for a carriage return before a line
    feed. -/
theorem setDotenv_again (hname : PlainName name.toList) (hvalue : PlainValue value.toList)
    (h : (setDotenv name value calls p).2 = .ok ()) (calls' : EditCalls) :
    let p' := (setDotenv name value calls p).1
    (setDotenv name value calls' p').1.content = p'.content ∨
      ∃ raw, p'.content = some raw ∧ [13, 10] <:+: raw ∧
        (setDotenv name value calls' p').1.content = some (relined raw) := by
  obtain ⟨content, text, hread, htext, hcase⟩ := setDotenv_ok h
  dsimp only
  generalize (setDotenv name value calls p).1 = p' at hcase ⊢
  unfold setDotenv
  cases hsecond : readExisting calls'.first settingsLimit p' with
  | error e => exact .inl rfl
  | ok content' =>
    have hcontent' := (readExisting_ok hsecond).1
    dsimp only
    rcases hcase with ⟨hempty, habsent, rfl⟩ | hwritten
    · -- the name does not occur, now as before
      have hsame : content' = content := by
        rw [(readExisting_ok hread).1, hcontent']
      have hutf8 : utf8 (content'.getD []) = some text := hsame ▸ htext
      rw [hutf8]
      dsimp only
      have hedit : dotenvEdit name.toList value.toList text.toList = none :=
        (dotenvEdit_eq _).trans (if_pos ⟨by rw [hempty]; rfl, habsent⟩)
      rw [hedit]
      exact .inl rfl
    -- the file has the text that was written, so the second edit finds its own line
    · have hbytes : content' = some (dotenvBytes name value text) := by
        rw [hcontent', ← (readExisting_ok hwritten).1]
      subst hbytes
      rw [Option.getD_some, dotenvBytes, utf8_ofList]
      dsimp only
      rw [String.toList_ofList]
      by_cases hempty : value.toList = []
      · rw [(dotenvEdit_again hname hvalue text.toList).trans (if_pos hempty)]
        exact .inl rfl
      · rw [(dotenvEdit_again hname hvalue text.toList).trans (if_neg hempty)]
        dsimp only
        have hrelined : relined (dotenvBytes name value text) = bytes (String.ofList (unlines
            ((editedLines name.toList value.toList (strLines text.toList)).map withoutReturn))) :=
          relined_unlines (editedLines_free hname hvalue (strLines_free _))
        rw [← hrelined]
        rcases (save_spec calls'.save (relined (dotenvBytes name value text)) settingsLimit p').2.1
          with hsaved | hsaved
        · exact .inl hsaved
        · by_cases hreturn : [13, 10] <:+: dotenvBytes name value text
          · exact .inr ⟨dotenvBytes name value text, hcontent'.symm, hreturn, hsaved⟩
          · -- no line ends in a carriage return, so the lines are written as they were
            left
            have hfree : ¬ ['\r', '\n'] <:+: unlines
                (editedLines name.toList value.toList (strLines text.toList)) :=
              fun h => hreturn (crlf_bytes h)
            rw [hsaved, ← hcontent', hrelined, unlines_map_withoutReturn hfree]
            rfl

end

/-! ### Reading JSON files

What a reader finds is the member at its path. -/

/-- What stands at a path of a JSON file. -/
def memberAt (S : Serde) (limit : ℕ) (p : Place) (path : List String) : Option Json :=
  match jsonObject S .fine limit p with
  | .ok m => member (.obj m) path
  | .error _ => none

section

variable {S : Serde} {limit : ℕ} {p : Place} {m : Map}

theorem memberAt_of_ok (h : jsonObject S .fine limit p = .ok m) (path : List String) :
    memberAt S limit p path = member (.obj m) path := by
  unfold memberAt
  rw [h]

/-- `claude_key` reads what stands at its path. -/
theorem claudeKey_of_ok (hS : ReadsSettings S) (h : jsonObject S .fine settingsLimit p = .ok m) :
    claudeKey S .fine p = ((member (.obj m) ["env", "ANTHROPIC_API_KEY"]).bind asStr).getD "" := by
  unfold jsonObject at h
  cases hread : readExisting .fine settingsLimit p with
  | error e =>
    rw [hread] at h
    cases h
  | ok content =>
    rw [hread] at h
    unfold claudeKey
    rw [read_fine hread]
    dsimp only at h
    -- an empty or a missing file stands for the empty object
    split at h
    · next hempty =>
      cases h
      cases content with
      | none => rfl
      | some raw =>
        obtain rfl : raw = [] := hempty
        dsimp only
        rw [hS.empty]
        rfl
    · next hne =>
      cases content with
      | none => exact absurd rfl hne
      | some raw =>
        rw [Option.getD_some] at h
        cases hjson : S.fromSlice raw with
        | none =>
          rw [hjson] at h
          cases h
        | some j =>
          rw [hjson] at h
          dsimp only
          rw [hjson]
          -- only an object is accepted
          cases j <;> cases h
          rw [Option.bind_some]
          congr 1
          show (m.get "env").bind _ = _
          rw [member_cons]
          cases m.get "env" with
          | none => rfl
          | some env =>
            rw [Option.bind_some, Option.bind_some, member]
            cases env.get "ANTHROPIC_API_KEY" <;> rfl

/-- The edits of a JSON file keep what is apart from the edited paths. -/
def KeepsApart (S : Serde) (limit : ℕ) (edited : List (List String)) (p p' : Place) : Prop :=
  ∀ path, (∀ e ∈ edited, Apart e path) → memberAt S limit p' path = memberAt S limit p path

end

/-! ### Edits

The edits of all four files in one statement, followed by edits of single files, two of which show
the exceptions: a type that may not be replaced, and a stray carriage return. -/

/-- An edit that fails before its write leaves the file as it was. -/
def KeepsOnError (edit : EditCalls → Place → Place × Except ProviderError Unit) : Prop :=
  ∀ calls p e, (edit calls p).2 = .error e → e ≠ writeFailed ∨ calls.save.write = .beforeCommit →
    (edit calls p).1.entry = p.entry

/-- An edit that is made again leaves the content as it is, however the second one ends. -/
def Settles (edit : EditCalls → Place → Place × Except ProviderError Unit) (p : Place) : Prop :=
  ∀ calls, (edit calls p).1.content = p.content

section

variable {S : Serde} {calls : EditCalls} {p : Place} {name key want : String}
  {replace : String → Bool} {version : Option String}

theorem setClaudeKey_ok (hS : ReadsSettings S) (hints : IntegersOnly S p)
    (h : (setClaudeKey S name key calls p).2 = .ok ()) :
    let p' := (setClaudeKey S name key calls p).1
    memberAt S settingsLimit p' ["env", name] = (if key = "" then none else some (.str key)) ∧
      (name = "ANTHROPIC_API_KEY" → claudeKey S .fine p' = key) ∧
      KeepsApart S settingsLimit [["env", name]] p p' ∧ Settles (setClaudeKey S name key) p' := by
  obtain ⟨m, m', hm, hread, hread', hcase⟩ := editJson_ok hS claudeSettings_keeps hints h
  have hsettles := editJson_again hS claudeSettings_keeps hints claudeSettings_again h
  have hvalue : member (.obj m') ["env", name] = if key = "" then none else some (.str key) := by
    rcases hcase with ⟨hnone, -, rfl⟩ | ⟨hsome, -⟩
    · obtain ⟨hkey, hmember⟩ := claudeSettings_none hnone
      rw [hmember, if_pos hkey]
    · exact claudeSettings_value hm hsome
  refine ⟨?_, ?_, fun path hpath => ?_, hsettles⟩
  · exact (memberAt_of_ok hread' _).trans hvalue
  · rintro rfl
    refine (claudeKey_of_ok hS hread').trans ?_
    rw [hvalue]
    split
    · next hkey => rw [hkey]; rfl
    · rfl
  · refine (memberAt_of_ok hread' path).trans (Eq.trans ?_ (memberAt_of_ok hread path).symm)
    rcases hcase with ⟨-, -, rfl⟩ | ⟨hsome, -⟩
    · rfl
    · exact claudeSettings_frame hm hsome (hpath _ (List.mem_singleton_self _))

theorem setGeminiAuth_ok (hS : ReadsSettings S) (hints : IntegersOnly S p)
    (h : (setGeminiAuth S want replace calls p).2 = .ok ()) :
    let p' := (setGeminiAuth S want replace calls p).1
    ∃ current, geminiSelectedAuth S .fine p = .ok current ∧
      (current = want ∨ replace current = true → geminiSelectedAuth S .fine p' = .ok want) ∧
      (current ≠ want → replace current = false → p' = p) ∧
      KeepsApart S settingsLimit [["security", "auth", "selectedType"]] p p' ∧
      Settles (setGeminiAuth S want replace) p' := by
  obtain ⟨m, m', hm, hread, hread', hcase⟩ := editJson_ok hS geminiSettings_keeps hints h
  have hsettles := editJson_again hS geminiSettings_keeps hints geminiSettings_again h
  refine ⟨selectedOf m, geminiSelectedAuth_of_ok hread, fun hwant => ?_, fun hne hkeep => ?_,
    fun path hpath => ?_, hsettles⟩
  · refine (geminiSelectedAuth_of_ok hread').trans (congrArg Except.ok ?_)
    rcases hcase with ⟨hnone, -, rfl⟩ | ⟨hsome, -⟩
    · rcases hwant with hwant | hreplace
      · exact hwant
      · rcases geminiSettings_none hnone with hwant | hkept
        · exact hwant
        · rw [hkept] at hreplace
          cases hreplace
    · exact geminiSettings_value hm hsome
  · rcases hcase with ⟨-, hsame, -⟩ | ⟨hsome, -⟩
    · exact hsame
    · -- a type that may not be replaced is not
      obtain ⟨_, _, _, _, _, _, _, _, _, hnext⟩ := geminiSettings_take hsome
      rcases hnext with ⟨hnone, -⟩ | ⟨hreplaced, -⟩
      · cases hnone
      · exact absurd (.inr hkeep) hreplaced
  · refine (memberAt_of_ok hread' path).trans (Eq.trans ?_ (memberAt_of_ok hread path).symm)
    rcases hcase with ⟨-, -, rfl⟩ | ⟨hsome, -⟩
    · rfl
    · exact geminiSettings_frame hm hsome (hpath _ (List.mem_singleton_self _))

theorem markClaudeReady_ok (hS : ReadsSettings S) (hints : IntegersOnly S p)
    (h : (markClaudeReady S key version calls p).2 = .ok ()) :
    let p' := (markClaudeReady S key version calls p).1
    ∃ m m', jsonObject S .fine stateLimit p = .ok m ∧ jsonObject S .fine stateLimit p' = .ok m' ∧
      Ready key version m m' ∧ KeepsApart S stateLimit (readyPaths key) p p' ∧
      Settles (markClaudeReady S key version) p' := by
  have hkeeps : Rewrite.Keeps (claudeState key version) := fun hm hsome =>
    ((claudeState_spec hm hsome).2 _ rfl).1
  obtain ⟨m, m', hm, hread, hread', hcase⟩ := editJson_ok hS hkeeps hints h
  have hsettles := editJson_again hS hkeeps hints claudeState_again h
  refine ⟨m, m', hread, hread', ?_, fun path hpath => ?_, hsettles⟩
  · rcases hcase with ⟨hnone, -, rfl⟩ | ⟨hsome, -⟩
    · exact (claudeState_spec hm hnone).1 rfl
    · exact ((claudeState_spec hm hsome).2 _ rfl).2.1
  · refine (memberAt_of_ok hread' path).trans (Eq.trans ?_ (memberAt_of_ok hread path).symm)
    rcases hcase with ⟨-, -, rfl⟩ | ⟨hsome, -⟩
    · rfl
    · exact ((claudeState_spec hm hsome).2 _ rfl).2.2 path hpath

/-- **An edit changes the key only.**  After a successful edit its reader finds the new key or type,
nothing after a removal, and every other name of `.env` and every path of a JSON file apart from the
edited ones is as it was; a type that may not be replaced stays.  The same edit again leaves the
content as it is, but for a carriage return before a line feed of `.env`; and an edit that fails
before its write leaves the file. -/
theorem edits_keep_settings (S : Serde) (hS : ReadsSettings S) (key : String)
    (hkey : key = "" ∨ validKey key = true) (calls : EditCalls) (p : Place) :
    (∀ name, PlainName name.toList → KeepsOnError (setDotenv name key) ∧
      let p' := (setDotenv name key calls p).1
      ((setDotenv name key calls p).2 = .ok () → dotenvValue .fine name p' = key ∧
        (∀ other, other ≠ name → dotenvValue .fine other p' = dotenvValue .fine other p) ∧
        ∀ calls', (setDotenv name key calls' p').1.content = p'.content ∨
          ∃ raw, p'.content = some raw ∧ [13, 10] <:+: raw ∧
            (setDotenv name key calls' p').1.content = some (relined raw))) ∧
    (∀ name, KeepsOnError (setClaudeKey S name key) ∧
      let p' := (setClaudeKey S name key calls p).1
      (IntegersOnly S p → (setClaudeKey S name key calls p).2 = .ok () →
        memberAt S settingsLimit p' ["env", name] = (if key = "" then none else some (.str key)) ∧
        (name = "ANTHROPIC_API_KEY" → claudeKey S .fine p' = key) ∧
        KeepsApart S settingsLimit [["env", name]] p p' ∧ Settles (setClaudeKey S name key) p')) ∧
    (∀ want replace, KeepsOnError (setGeminiAuth S want replace) ∧
      let p' := (setGeminiAuth S want replace calls p).1
      (IntegersOnly S p → (setGeminiAuth S want replace calls p).2 = .ok () →
        ∃ current, geminiSelectedAuth S .fine p = .ok current ∧
          (current = want ∨ replace current = true → geminiSelectedAuth S .fine p' = .ok want) ∧
          (current ≠ want → replace current = false → p' = p) ∧
          KeepsApart S settingsLimit [["security", "auth", "selectedType"]] p p' ∧
          Settles (setGeminiAuth S want replace) p')) ∧
    ∀ version, KeepsOnError (markClaudeReady S key version) ∧
      let p' := (markClaudeReady S key version calls p).1
      (IntegersOnly S p → (markClaudeReady S key version calls p).2 = .ok () →
        ∃ m m', jsonObject S .fine stateLimit p = .ok m ∧
        jsonObject S .fine stateLimit p' = .ok m' ∧
          Ready key version m m' ∧ KeepsApart S stateLimit (readyPaths key) p p' ∧
          Settles (markClaudeReady S key version) p') := by
  -- a key that is valid, or none, is written without quoting
  have hvalue : PlainValue key.toList := by
    rcases hkey with rfl | hvalid
    · exact nofun
    · exact plainValue_of_validKey hvalid
  refine ⟨fun name hname => ⟨fun _ _ _ h hwrite => setDotenv_error h hwrite, fun h => ?_⟩,
    fun name => ⟨fun _ _ _ h hwrite => editJson_error h hwrite, setClaudeKey_ok hS⟩,
    fun want replace => ⟨fun _ _ _ h hwrite => editJson_error h hwrite, setGeminiAuth_ok hS⟩,
    fun version => ⟨fun _ _ _ h hwrite => editJson_error h hwrite, markClaudeReady_ok hS⟩⟩
  obtain ⟨hread, hothers⟩ := setDotenv_reads hname hvalue h
  exact ⟨hread, hothers, setDotenv_again hname hvalue h⟩

end

namespace ProviderKeysExample

/-- A reader that keeps what is relied on. -/
theorem readsSettings : ReadsSettings (prettyReader 127) where
  empty := rfl
  ordered := prettyReader_ordered
  pretty := prettyReader_reads

/-- All calls succeed. -/
def fine : EditCalls := ⟨.fine, ⟨true, .fine, true, .done⟩⟩

def key : String := "AIza-0123456789abcdef"

/-- A file with these bytes. -/
def file (raw : List UInt8) : Place := .trusted (some ⟨raw, true⟩)

/-- A file where the name occurs twice, once with quotes, beside another one. -/
def old : Place := file (bytes "A=1\nexport GEMINI_API_KEY = 'old'\nGEMINI_API_KEY=older\n")

theorem integersOnly_missing : IntegersOnly (prettyReader 127) .missing := fun _ _ h => nomatch h

/-- The key is written where the name stood first, and read again; so is the key of Claude. -/
theorem keys_written :
    (dotenvValue .fine "GEMINI_API_KEY" (setDotenv "GEMINI_API_KEY" key fine old).1 = key ∧
      dotenvValue .fine "A" (setDotenv "GEMINI_API_KEY" key fine old).1 =
        dotenvValue .fine "A" old) ∧
    claudeKey (prettyReader 127) .fine
      (setClaudeKey (prettyReader 127) "ANTHROPIC_API_KEY" key fine .missing).1 = key := by
  have hname : PlainName "GEMINI_API_KEY".toList := by
    apply forall_of_all
    decide
  have hvalid : validKey key = true := by decide
  obtain ⟨hdotenv, -, -, -⟩ :=
    edits_keep_settings (prettyReader 127) readsSettings key (.inr hvalid) fine old
  obtain ⟨-, hclaude, -, -⟩ :=
    edits_keep_settings (prettyReader 127) readsSettings key (.inr hvalid) fine .missing
  obtain ⟨hread, hothers, -⟩ := (hdotenv "GEMINI_API_KEY" hname).2 (by decide)
  obtain ⟨-, hkey, -⟩ := (hclaude "ANTHROPIC_API_KEY").2 integersOnly_missing rfl
  exact ⟨⟨hread, hothers "A" (by decide)⟩, hkey rfl⟩

/-- A last line with a carriage return and no line feed. -/
def stray : Place := file (bytes "A=1\r")

/-- Another account type is selected. -/
def vertex : Place := file (settingsText (prettyReader 127)
  [("security", .obj [("auth", .obj [("selectedType", .str "vertex-ai")])])])

/-- The account types that a login replaces. -/
def replaced (current : String) : Bool := current == "" || current == "gemini-api-key"

/-- An edit that replaces nothing succeeds, and the same edit of `.env` writes another content. -/
theorem kept_and_relined :
    ((setGeminiAuth (prettyReader 127) "oauth-personal" replaced fine vertex).2 = .ok () ∧
      geminiSelectedAuth (prettyReader 127) .fine
        (setGeminiAuth (prettyReader 127) "oauth-personal" replaced fine vertex).1 ≠
        .ok "oauth-personal") ∧
    (setDotenv "GEMINI_API_KEY" key fine stray).2 = .ok () ∧
      (setDotenv "GEMINI_API_KEY" key fine (setDotenv "GEMINI_API_KEY" key fine stray).1).2 =
        .ok () ∧
      (setDotenv "GEMINI_API_KEY" key fine (setDotenv "GEMINI_API_KEY" key fine
      stray).1).1.content ≠
        (setDotenv "GEMINI_API_KEY" key fine stray).1.content := by
  decide

end ProviderKeysExample

end Hmux.Home
