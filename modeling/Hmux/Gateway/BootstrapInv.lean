import Hmux.Gateway.BootstrapAuthority

namespace Hmux.Bootstrap

open Lib Auth

/-!
# The invariant of an enrollment

What holds in every state that the processes can reach:

* `parseToken_randomToken` — the file of a token is read back;
* `Core` — every published file has the text of its writer, tokens are drawn once, and who writes
  credentials was authorized;
* `Inv` — and every gateway has checked what it relies on;
* `Inv.side`, `Inv.setGateway` — how a step keeps it; `Inv.stepInit`, `Inv.stepWriter` — the steps
  of `initialize` and of the writers.

The three parts build on each other: what the directory has (`Files`), what the writers were given
(`Core`), and what the gateways have checked (`Inv`).  A step is shown to keep them in this order.
-/

/-! ### The files of tokens

A random token has no white space and no control character, so its file is read back as the token.
-/

section

variable (L : Library)

/-- A digit is no white space. -/
theorem isWhitespace_digit (n : ℕ) :
    Usage.isWhitespace (Base64.digit Base64.urlSafe n) = false := by
  have hall : ∀ d ∈ List.range 64, Usage.isWhitespace (Base64.digit Base64.urlSafe d) = false := by
    apply forall_of_all
    decide
  by_cases h : n < 64
  · exact hall n (List.mem_range.mpr h)
  · unfold Base64.digit
    rw [if_neg (by omega), if_neg (by omega), if_neg (by omega), if_neg (by omega)]
    decide

/-- A random token has no white space. -/
theorem randomToken_visible (n : ℕ) :
    ∀ c ∈ (randomToken L n).toList, Usage.isWhitespace c = false := by
  intro c hc
  unfold randomToken Base64.urlSafeNoPad at hc
  rw [String.toList_ofList] at hc
  rcases Base64.mem_encode hc with rfl | ⟨d, rfl⟩
  · decide
  · exact isWhitespace_digit d

/-- **The file of a token is read back.** -/
theorem parseToken_randomToken (n : ℕ) :
    parseToken (tokenText (randomToken L n)) = some (randomToken L n) := by
  have htrimmed : Usage.trimmed (randomToken L n ++ "\n") = randomToken L n := by
    unfold Usage.trimmed
    rw [String.toList_append, show ("\n" : String).toList = ['\n'] from rfl,
      Usage.trim_concat (by decide), Usage.trim_free (randomToken_visible L n),
      String.ofList_toList]
  have hvalid : validToken (randomToken L n) = true := by
    unfold validToken randomToken
    rw [Base64.urlSafeBytes_encode, Base64.length_bytes_urlSafeNoPad, Option.any_some,
      Vector.length_toList]
    rfl
  unfold parseToken tokenText
  rw [utf8_bytes, Option.map_some, htrimmed, Option.filter_some, if_pos hvalid]

/-- The first so many random values are distinct. -/
def Fresh (n : ℕ) : Prop := ∀ i < n, ∀ j < n, L.random i = L.random j → i = j

theorem Fresh.mono {L : Library} {n m : ℕ} (h : Fresh L n) (hle : m ≤ n) : Fresh L m :=
  fun i hi j hj => h i (Nat.lt_of_lt_of_le hi hle) j (Nat.lt_of_lt_of_le hj hle)

theorem tokenText_inj {t t' : String} (h : tokenText t = tokenText t') : t = t' := by
  unfold tokenText at h
  rw [bytes_inj] at h
  have hlist := congrArg String.toList h
  rw [String.toList_append, String.toList_append] at hlist
  exact String.toList_inj.mp (List.append_cancel_right hlist)

end

/-! ### What the writers know

The text of a file is decided when its writer is started, and who starts a writer of credentials
has been authorized. -/

section

variable (L : Library)

/-- What is written under a name: a random token, or credentials that may be written. -/
structure WriterKnown (s : State) (w : Writer) : Prop where
  token : w.target = .setup ∨ w.target = .connector →
    ∃ n < s.drawn, w.data = tokenText (randomToken L n)
  credentials : w.target = .credentials → ∃ c, w.data = bytes (goJson c) ∧ Authorized L s c

/-- What holds of the writers. -/
structure Core (s : State) : Prop where
  files : Files s
  known : ∀ k < s.started, WriterKnown L s (s.writers k)
  /-- Tokens are drawn once. -/
  drawn : ∀ k < s.started, ∀ k' < s.started, k ≠ k' →
    ((s.writers k).target = .setup ∨ (s.writers k).target = .connector) →
    ((s.writers k').target = .setup ∨ (s.writers k').target = .connector) →
    (s.writers k).data ≠ (s.writers k').data

/-- **What holds in every state of a run.** -/
structure Inv (s : State) : Prop extends Core L s where
  gateways : ∀ g, GatewayOk L s g (s.gateways g)

end

section

variable {L : Library} {s s' : State} {g p : ℕ} {owner : Owner} {name : Name} {raw : List UInt8}
  {data : List UInt8} {k : ℕ} {fault : Option IoKind} {next : Init} {token : String} {max : ℕ}

theorem WriterKnown.grows {w : Writer} (h : WriterKnown L s w) (hs : Grows s s') :
    WriterKnown L s' w where
  token htarget := by
    obtain ⟨n, hn, hdata⟩ := h.token htarget
    exact ⟨n, Nat.lt_of_lt_of_le hn hs.drawn, hdata⟩
  credentials htarget := by
    obtain ⟨c, hdata, hc⟩ := h.credentials htarget
    exact ⟨c, hdata, hc.grows hs⟩

/-- A file that can be read is one of the writers'. -/
theorem Core.read (h : Core L s) (hname : ∀ m, name ≠ .temp m)
    (hread : s.dir.readPrivate name max = .ok raw) :
    ∃ k < s.started, s.published k = true ∧ (s.writers k).target = name ∧
      (s.writers k).data = raw := by
  obtain ⟨k, hk, -, -, hraw⟩ := LinkDir.readPrivate_ok.mp hread
  obtain ⟨hstarted, htarget⟩ := h.files.owned name k hk
  have htarget := htarget.resolve_left (hname k)
  refine ⟨k, hstarted, h.files.published name k hk htarget, htarget.symm, ?_⟩
  rw [← hraw]
  exact ((h.files.writers k).data (.inr (htarget ▸ hk))).symm

/-- The token of the setup file is one that was drawn. -/
theorem Core.setupToken (h : Core L s)
    (hread : (s.dir.readPrivate .setup max).toOption.bind parseToken = some token) :
    SetupToken s token := by
  obtain ⟨raw, hraw, hparse⟩ := Option.bind_eq_some_iff.mp hread
  cases hfile : s.dir.readPrivate .setup max with
  | error e =>
    rw [hfile] at hraw
    cases hraw
  | ok raw' =>
    rw [hfile] at hraw
    cases hraw
    obtain ⟨k, hk, hpublished, htarget, hdata⟩ := h.read (fun m heq => by cases heq) hfile
    obtain ⟨n, -, hn⟩ := (h.known k hk).token (.inl htarget)
    refine ⟨k, hk, hpublished, htarget, ?_⟩
    rw [← hdata, hn, parseToken_randomToken] at hparse
    rw [hn, Option.some.inj hparse]

/-- What does not touch files and writers takes nothing back. -/
theorem Grows.side (hdir : s'.dir = s.dir) (hwriters : s'.writers = s.writers)
    (hstarted : s'.started = s.started) (hpublished : s'.published = s.published)
    (hdrawn : s.drawn ≤ s'.drawn) (hlog : s.log <+: s'.log) : Grows s s' where
  started := hstarted.ge
  target k _ := by rw [hwriters]
  data k _ := by rw [hwriters]
  published k hk := by rw [hpublished, hk]
  kept n _ j hj := by rw [hdir, hj]
  drawn := hdrawn
  log := hlog

/-- No writer is started. -/
theorem Core.same (h : Core L s) (hs : Grows s s') (hfiles : Files s')
    (hstarted : s'.started = s.started) : Core L s' where
  files := hfiles
  known k hk := by
    rw [hstarted] at hk
    constructor
    · rw [hs.target k hk, hs.data k hk]
      exact ((h.known k hk).grows hs).token
    · rw [hs.target k hk, hs.data k hk]
      exact ((h.known k hk).grows hs).credentials
  drawn k hk k' hk' := by
    rw [hstarted] at hk hk'
    rw [hs.target k hk, hs.data k hk, hs.target k' hk', hs.data k' hk']
    exact h.drawn k hk k' hk'

/-- A writer is started. -/
theorem Core.spawn (h : Core L s) {target : Name} (htemp : ∀ m, target ≠ .temp m)
    (hknown : WriterKnown L s ⟨owner, target, data, .creating⟩)
    (hnew : target = .setup ∨ target = .connector → ∀ k < s.started,
      ((s.writers k).target = .setup ∨ (s.writers k).target = .connector) →
      (s.writers k).data ≠ data) : Core L (s.spawn owner target data) := by
  have hs : Grows s (s.spawn owner target data) := .spawn s owner target data
  have hself : (s.spawn owner target data).writers s.started = ⟨owner, target, data, .creating⟩ :=
    Function.update_self ..
  have hcase : ∀ k < (s.spawn owner target data).started, k < s.started ∨ k = s.started :=
    fun k hk => Nat.lt_succ_iff_lt_or_eq.mp hk
  refine ⟨h.files.spawn htemp, ?_, ?_⟩
  · intro k hk
    rcases hcase k hk with hold | rfl
    · constructor
      · rw [hs.target k hold, hs.data k hold]
        exact ((h.known k hold).grows hs).token
      · rw [hs.target k hold, hs.data k hold]
        exact ((h.known k hold).grows hs).credentials
    · rw [hself]
      exact hknown.grows hs
  · intro k hk k' hk' hne htoken htoken'
    rcases hcase k hk with hold | rfl
    · rw [hs.target k hold] at htoken
      rw [hs.data k hold]
      rcases hcase k' hk' with hold' | rfl
      · rw [hs.target k' hold'] at htoken'
        rw [hs.data k' hold']
        exact h.drawn k hold k' hold' hne htoken htoken'
      · rw [hself] at htoken' ⊢
        exact hnew htoken' k hold htoken
    · rw [hself] at htoken ⊢
      rcases hcase k' hk' with hold' | rfl
      · rw [hs.target k' hold'] at htoken'
        rw [hs.data k' hold']
        exact (hnew htoken k' hold' htoken').symm
      · exact absurd rfl hne

/-- What the gateways do not notice. -/
theorem Inv.side (h : Inv L s) (hs : Grows s s') (hcore : Core L s') (hlog : s'.log = s.log)
    (hgateways : s'.gateways = s.gateways) : Inv L s' := by
  refine ⟨hcore, fun g => ?_⟩
  rw [hgateways]
  apply (h.gateways g).grows hs
  intro p _ new hnew
  rw [hlog, List.self_eq_append_right] at hnew
  rw [hnew]
  intro e he
  exact absurd he List.not_mem_nil

/-- **A gateway changes**, after a step of its own. -/
theorem Inv.setGateway (h : Inv L s) (hs : Grows s s') (hcore : Core L s')
    (hgateways : s'.gateways = s.gateways)
    (hlog : ∀ new, s'.log = s.log ++ new → ∀ e ∈ new, ∀ g', g' ≠ g → e.begunBy g' = false)
    {next : Gateway} (hnext : GatewayOk L s' g next) : Inv L (s'.setGateway g next) := by
  have hside : Grows s' (s'.setGateway g next) :=
    .side rfl rfl rfl rfl (Nat.le_refl _) (List.prefix_refl _)
  have hsame : ∀ new, (s'.setGateway g next).log = s'.log ++ new → new = [] :=
    fun new hnew => List.self_eq_append_right.mp hnew
  refine ⟨hcore.same hside (hcore.files.same rfl rfl rfl rfl rfl) rfl, fun g' => ?_⟩
  show GatewayOk L _ g' (Function.update s'.gateways g next g')
  by_cases hg : g' = g
  · rw [hg, Function.update_self]
    apply hnext.grows hside
    intro p _ new hnew e he
    rw [hsame new hnew] at he
    exact absurd he List.not_mem_nil
  · rw [Function.update_of_ne hg, hgateways]
    apply ((h.gateways g').grows hs _).grows hside
    · intro p _ new hnew e he
      rw [hsame new hnew] at he
      exact absurd he List.not_mem_nil
    · intro p _ new hnew e he
      exact hlog new hnew e he g' hg

end

/-! ### The steps of `initialize`

A token that is there is kept, and one that is missing is drawn; after a crash the call is made
again. -/

section

variable {L : Library} {s s' : State} {g p : ℕ} {k : ℕ} {fault : Option IoKind} {next : Init}

theorem Inv.setInit (h : Inv L s) (p : ℕ) (next : Init) : Inv L (s.setInit p next) := by
  have hs : Grows s (s.setInit p next) := .side rfl rfl rfl rfl (Nat.le_refl _) (List.prefix_refl _)
  exact h.side hs (h.toCore.same hs (h.files.same rfl rfl rfl rfl rfl) rfl) rfl rfl

theorem Inv.stepWriter (h : Inv L s) (k : ℕ) (fault : Option IoKind) :
    Inv L (s.stepWriter k fault) := by
  have hs : Grows s (s.stepWriter k fault) := .stepWriter s k fault
  have hstarted : (s.stepWriter k fault).started = s.started := by
    unfold State.stepWriter
    split <;> rfl
  have hlog : (s.stepWriter k fault).log = s.log := by
    unfold State.stepWriter
    split <;> rfl
  have hgateways : (s.stepWriter k fault).gateways = s.gateways := by
    unfold State.stepWriter
    split <;> rfl
  exact h.side hs (h.toCore.same hs (h.files.stepWriter k fault) hstarted) hlog hgateways

theorem Inv.killWriters (h : Inv L s) (owner : Owner) : Inv L (s.killWriters owner) := by
  have hs : Grows s (s.killWriters owner) := .killWriters s owner
  exact h.side hs (h.toCore.same hs (h.files.killWriters owner) rfl) rfl rfl

/-- A fresh token is drawn and written. -/
theorem Inv.draw (h : Inv L s) (hfresh : Fresh L (s.drawn + 1)) (p : ℕ) (t : Token) :
    Inv L { s.spawn (.init p) t.name (tokenText (randomToken L s.drawn)) with
      drawn := s.drawn + 1 } := by
  have hdrawn : Grows s { s with drawn := s.drawn + 1 } :=
    .side rfl rfl rfl rfl (Nat.le_succ _) (List.prefix_refl _)
  have hcore : Core L { s with drawn := s.drawn + 1 } :=
    h.toCore.same hdrawn (h.files.same rfl rfl rfl rfl rfl) rfl
  have hs := hdrawn.trans (.spawn _ (.init p) t.name (tokenText (randomToken L s.drawn)))
  refine h.side hs (hcore.spawn (fun m => by cases t <;> exact Name.noConfusion) ⟨?_, ?_⟩ ?_) rfl
    rfl
  · intro _
    exact ⟨s.drawn, Nat.lt_succ_self _, rfl⟩
  · intro heq
    cases t <;> cases heq
  · intro _ k hk htoken heq
    obtain ⟨n, hn, hdata⟩ := (h.known k hk).token htoken
    rw [hdata] at heq
    have hvalues := Vector.toList_inj.mp (Base64.urlSafeNoPad_inj (tokenText_inj heq))
    have hsame := hfresh n (by omega) s.drawn (Nat.lt_succ_self _) hvalues
    omega

/-- **One operation of `initialize`.** -/
theorem Inv.stepInit (h : Inv L s) (p : ℕ) (fault : Option IoKind)
    (hfresh : Fresh L (s.stepInit L p fault).drawn) : Inv L (s.stepInit L p fault) := by
  revert hfresh
  unfold State.stepInit
  split
  · exact fun _ => h
  · exact fun _ => h
  · split
    · exact fun _ => h.setInit p _
    · exact fun _ => h.setInit p _
    · exact fun _ => h.setInit p _
    · exact fun _ => h
  · exact fun _ => h.setInit p _
  · split
    all_goals exact fun _ => h.setInit p _
  · split
    all_goals exact fun _ => h.setInit p _
  · split
    · exact fun _ => h.setInit p _
    · split
      all_goals exact fun _ => h.setInit p _
    · exact fun _ => h.setInit p _
  · split
    · split
      all_goals exact fun _ => h.setInit p _
    · exact fun hfresh => (h.draw hfresh p _).setInit p _
    · exact fun _ => h.setInit p _
  · split
    · split
      all_goals exact fun _ => h.setInit p _
    · exact fun _ => h.setInit p _
  · split
    all_goals exact fun _ => h.setInit p _
  · split
    · split
      all_goals exact fun _ => h.setInit p _
    · exact fun _ => h.setInit p _

end

end Hmux.Bootstrap
