import Hmux.Gateway.BootstrapFiles

namespace Hmux.Bootstrap

open Lib Auth

/-!
# Who may enroll

What the processes of an enrollment know of each other:

* `Grows` — what no step takes back: credentials stay what they are, the connector token stays, and
  the log is only added to;
* `Authorized` — which requests may lead to credentials;
* `GatewayOk` — what a gateway has checked, and `GatewayOk.setHandler` — what it still has when one
  of its requests goes on.
-/

/-! ### What is never taken back

Facts that hold from some state on, so that what a process knew before it waited is still true when
it goes on. -/

/-- Two states of a run, one after the other. -/
structure Grows (s s' : State) : Prop where
  started : s.started ≤ s'.started
  target : ∀ k < s.started, (s'.writers k).target = (s.writers k).target
  data : ∀ k < s.started, (s'.writers k).data = (s.writers k).data
  published : ∀ k, s.published k = true → s'.published k = true
  kept : ∀ n, n = .credentials ∨ n = .connector → ∀ j, s.dir.names n = some j →
    s'.dir.names n = some j
  drawn : s.drawn ≤ s'.drawn
  log : s.log <+: s'.log

namespace Grows

variable {s s' s'' : State}

theorem refl (s : State) : Grows s s :=
  ⟨Nat.le_refl _, fun _ _ => rfl, fun _ _ => rfl, fun _ hk => hk, fun _ _ _ hj => hj, Nat.le_refl _,
    List.prefix_refl _⟩

theorem trans (h : Grows s s') (h' : Grows s' s'') : Grows s s'' where
  started := Nat.le_trans h.started h'.started
  target k hk := by rw [h'.target k (Nat.lt_of_lt_of_le hk h.started), h.target k hk]
  data k hk := by rw [h'.data k (Nat.lt_of_lt_of_le hk h.started), h.data k hk]
  published k hk := h'.published k (h.published k hk)
  kept n hn j hj := h'.kept n hn j (h.kept n hn j hj)
  drawn := Nat.le_trans h.drawn h'.drawn
  log := h.log.trans h'.log

/-- The connector token stays. -/
theorem connector (h : Grows s s') (hn : s.dir.names .connector ≠ none) :
    s'.dir.names .connector ≠ none := by
  obtain ⟨j, hj⟩ := Option.ne_none_iff_exists'.mp hn
  rw [h.kept _ (.inr rfl) j hj]
  nofun

theorem spawn (s : State) (owner : Owner) (target : Name) (data : List UInt8) :
    Grows s (s.spawn owner target data) := by
  have hold : ∀ k < s.started, (s.spawn owner target data).writers k = s.writers k :=
    fun k hk => Function.update_of_ne (Nat.ne_of_lt hk) _ _
  refine ⟨Nat.le_succ _, ?_, ?_, fun _ hk => hk, fun _ _ _ hj => hj, Nat.le_refl _,
    List.prefix_refl _⟩
  · intro k hk
    rw [hold k hk]
  · intro k hk
    rw [hold k hk]

theorem killWriters (s : State) (owner : Owner) : Grows s (s.killWriters owner) := by
  refine ⟨Nat.le_refl _, ?_, ?_, fun _ hk => hk, fun _ _ _ hj => hj, Nat.le_refl _,
    List.prefix_refl _⟩
  · intro k _
    show (if _ then _ else _ : Writer).target = _
    split <;> rfl
  · intro k _
    show (if _ then _ else _ : Writer).data = _
    split <;> rfl

/-- A name that is neither temporary nor that of the setup token is only ever bound when it is
    free. -/
theorem names_step (w : Writer) (k : ℕ) (d : LinkDir Name) (fault : Option IoKind) {n : Name}
    (htemp : ∀ m, n ≠ .temp m) (hsetup : n ≠ .setup) {j : ℕ} (hj : d.names n = some j) :
    (w.step k d fault).2.names n = some j := by
  have hcreate : (d.create (.temp k) k).names n = some j := by
    rw [LinkDir.names_create, if_neg (htemp k)]
    exact hj
  have hunlink : (d.unlink (.temp k)).names n = some j := by
    rw [LinkDir.names_unlink, if_neg (htemp k)]
    exact hj
  have hretire : (d.unlink .setup).names n = some j := by
    rw [LinkDir.names_unlink, if_neg hsetup]
    exact hj
  unfold Writer.step
  split
  any_goals assumption
  split
  · exact hj
  · rename_i hfree
    rw [LinkDir.names_link, if_neg]
    · exact hj
    · rintro rfl
      rw [hj] at hfree
      exact hfree rfl

theorem stepWriter (s : State) (k : ℕ) (fault : Option IoKind) :
    Grows s (s.stepWriter k fault) := by
  unfold State.stepWriter
  split
  · refine ⟨Nat.le_refl _, ?_, ?_, ?_, ?_, Nat.le_refl _, List.prefix_refl _⟩
    · intro j _
      dsimp only
      by_cases hj : j = k
      · rw [hj, Function.update_self]
      · rw [Function.update_of_ne hj]
    · intro j _
      dsimp only
      by_cases hj : j = k
      · rw [hj, Function.update_self]
      · rw [Function.update_of_ne hj]
    · intro j hpublished
      dsimp only
      by_cases hj : j = k
      · rw [hj] at hpublished
        rw [hj, Function.update_self, hpublished, Bool.or_true]
      · rw [Function.update_of_ne hj]
        exact hpublished
    · intro n hn j hj
      have htemp : ∀ m, n ≠ .temp m := by rcases hn with rfl | rfl <;> nofun
      have hsetup : n ≠ .setup := by rcases hn with rfl | rfl <;> nofun
      exact names_step _ _ _ _ htemp hsetup hj
  · exact refl s

end Grows

/-! ### Who may write credentials

The log has what was presented and when; whoever writes credentials is found there. -/

/-- The entry is an enrollment that a process began. -/
def Entry.begunBy (g : ℕ) : Entry → Bool
  | .begun g' _ _ _ _ => g' == g
  | .confirmed .. => false

/-- The entry is the latest enrollment that the process began. -/
def Latest (log : List Entry) (g : ℕ) (e : Entry) : Prop :=
  ∃ before between, log = before ++ e :: between ∧ ∀ e' ∈ between, e'.begunBy g = false

/-- The token is that of a setup file that was published. -/
def SetupToken (s : State) (token : String) : Prop :=
  ∃ k < s.started, s.published k = true ∧ (s.writers k).target = .setup ∧
    (s.writers k).data = tokenText token

section

variable (L : Library)

/-- The credentials are those of a valid form that presented the token. -/
def Presented (token : String) (totpEnabled : Bool) (c : Credentials) : Prop :=
  ∃ (body : BeginBody) (salt : Vector UInt8 32) (secret : Vector UInt8 20),
    body.token = token ∧ body.totpEnabled = totpEnabled ∧ body.valid = true ∧
      c = State.enrolled L body salt.toList secret.toList

/-- **Who may write credentials**: a form with the setup token that does without a second factor,
    or one whose second factor was confirmed, under the same token, while it was the latest of its
    process and had not expired. -/
def Authorized (s : State) (c : Credentials) : Prop :=
  (∃ g token, .begun g token c none 0 ∈ s.log ∧ SetupToken s token ∧ Presented L token false c) ∨
  ∃ g token c₀ id expires code now unixSeconds step before after,
    s.log = before ++ .confirmed g token id code now unixSeconds step c :: after ∧
    Latest before g (.begun g token c₀ (some id) expires) ∧ SetupToken s token ∧
    Presented L token true c₀ ∧ now < expires ∧
    c₀.matchCode L.toCrypto code unixSeconds.toInt = some step ∧ c = { c₀ with lastStep := step }

end

section

variable {L : Library} {s s' : State} {log : List Entry} {g : ℕ} {e e' : Entry} {token : String}
  {c : Credentials}

theorem SetupToken.grows (h : SetupToken s token) (hs : Grows s s') : SetupToken s' token := by
  obtain ⟨k, hk, hpublished, htarget, hdata⟩ := h
  refine ⟨k, Nat.lt_of_lt_of_le hk hs.started, hs.published k hpublished, ?_, ?_⟩
  · rw [hs.target k hk, htarget]
  · rw [hs.data k hk, hdata]

theorem Authorized.grows (h : Authorized L s c) (hs : Grows s s') : Authorized L s' c := by
  obtain ⟨new, hnew⟩ := hs.log
  rcases h with ⟨g, token, hlog, htoken, hform⟩ |
    ⟨g, token, c₀, id, expires, code, now, unixSeconds, step, before, after, hlog, hlatest, htoken,
      hrest⟩
  · refine .inl ⟨g, token, ?_, htoken.grows hs, hform⟩
    rw [← hnew]
    exact List.mem_append_left _ hlog
  · refine .inr ⟨g, token, c₀, id, expires, code, now, unixSeconds, step, before, after ++ new, ?_,
      hlatest, htoken.grows hs, hrest⟩
    rw [← hnew, hlog, List.append_assoc, List.cons_append]

/-- What other processes begin does not matter. -/
theorem Latest.append (h : Latest log g e) {new : List Entry}
    (hnew : ∀ e' ∈ new, e'.begunBy g = false) : Latest (log ++ new) g e := by
  obtain ⟨before, between, hlog, hbetween⟩ := h
  refine ⟨before, between ++ new, ?_, ?_⟩
  · rw [hlog, List.append_assoc, List.cons_append]
  · intro e' he'
    rcases List.mem_append.mp he' with he' | he'
    · exact hbetween e' he'
    · exact hnew e' he'

theorem latest_self (log : List Entry) (g : ℕ) (e : Entry) : Latest (log ++ [e]) g e :=
  ⟨log, [], rfl, nofun⟩

end

/-! ### The gateways

What a process has checked stays true as long as it holds the lock, since the others can only
change the setup state under it. -/

/-- The handler holds the lock of the setup state. -/
def Handler.holds : Handler → Bool
  | .hashing .. | .confirming _ | .persisting .. => true
  | _ => false

section

variable (L : Library)

/-- What a handler has checked. -/
def HandlerOk (s : State) (gateway : Gateway) : Handler → Prop
  | .hashing body salt secret =>
    gateway.pending = none ∧ body.token = gateway.setupToken ∧ body.valid = true ∧
      salt.length = 32 ∧ secret.length = 20
  | .confirming c => Authorized L s c
  | _ => True

/-- What a gateway waits for is the latest enrollment that it began. -/
def PendingOk (s : State) (g : ℕ) (gateway : Gateway) (p : Pending) : Prop :=
  ∃ c₀, Latest s.log g (.begun g gateway.setupToken c₀ (some p.id) p.expires) ∧
    Presented L gateway.setupToken true c₀ ∧ ∃ step, p.credentials = { c₀ with lastStep := step }

/-- What a gateway knows. -/
structure GatewayOk (s : State) (g : ℕ) (gateway : Gateway) : Prop where
  down : gateway.serving ≠ .serving → gateway.pending = none ∧ ∀ h, gateway.handlers h = .idle
  token : gateway.serving = .serving → SetupToken s gateway.setupToken
  pending : ∀ p, gateway.pending = some p → PendingOk L s g gateway p
  handlers : ∀ h, HandlerOk L s gateway (gateway.handlers h)
  locked : ∀ h, (gateway.handlers h).holds = true → gateway.locked = true
  single : ∀ h h', (gateway.handlers h).holds = true → (gateway.handlers h').holds = true → h = h'

end

section

variable {L : Library} {s s' : State} {g h : ℕ} {gateway : Gateway}

/-- A gateway does not notice what other processes do. -/
theorem GatewayOk.grows (hg : GatewayOk L s g gateway) (hs : Grows s s')
    (hlog : ∀ p, gateway.pending = some p →
      ∀ new, s'.log = s.log ++ new → ∀ e ∈ new, e.begunBy g = false) :
    GatewayOk L s' g gateway where
  down := hg.down
  token hserving := (hg.token hserving).grows hs
  pending p hp := by
    obtain ⟨c₀, hlatest, hrest⟩ := hg.pending p hp
    obtain ⟨new, hnew⟩ := hs.log
    refine ⟨c₀, ?_, hrest⟩
    rw [← hnew]
    exact hlatest.append (hlog p hp new hnew.symm)
  handlers h := by
    have hh := hg.handlers h
    revert hh
    cases gateway.handlers h with
    | confirming c => exact fun hc => Authorized.grows hc hs
    | _ => exact id
  locked := hg.locked
  single := hg.single

/-- The gateway is serving as soon as a request is being handled. -/
theorem GatewayOk.serving (hg : GatewayOk L s g gateway) (hh : gateway.handlers h ≠ .idle) :
    gateway.serving = .serving := by
  by_contra hne
  exact hh ((hg.down hne).2 h)

/-- A process that does not run. -/
theorem gatewayOk_down (L : Library) (s : State) (g : ℕ) {next : Serving}
    (hnext : next ≠ .serving) : GatewayOk L s g { Gateway.down with serving := next } :=
  ⟨fun _ => ⟨rfl, fun _ => rfl⟩, fun heq => absurd heq hnext, nofun, fun _ => trivial, nofun, nofun⟩

theorem handlerOk_of_not_holds {handler : Handler} (hh : handler.holds = false) :
    HandlerOk L s gateway handler := by
  cases handler <;> trivial

/-- **A request goes on.**  Either nobody else holds the lock, or the handler does not hold it and
    leaves what others rely on. -/
theorem GatewayOk.setHandler (hg : GatewayOk L s g gateway) (hserving : gateway.serving = .serving)
    {gateway' : Gateway} {next : Handler} (hsame : gateway'.serving = gateway.serving)
    (htoken : gateway'.setupToken = gateway.setupToken)
    (hhandlers : gateway'.handlers = gateway.handlers)
    (hpending : ∀ p, gateway'.pending = some p → PendingOk L s g gateway' p)
    (hnext : HandlerOk L s gateway' next) (hlock : next.holds = true → gateway'.locked = true)
    (hothers : (∀ h', h' ≠ h → (gateway.handlers h').holds = false) ∨
      next.holds = false ∧ (gateway.pending = none → gateway'.pending = none) ∧
        gateway'.locked = gateway.locked) :
    GatewayOk L s g { gateway' with handlers := Function.update gateway'.handlers h next } := by
  have hself : Function.update gateway'.handlers h next h = next := Function.update_self ..
  have hother :
    -- the other handlers do not change
    ∀ h', h' ≠ h → Function.update gateway'.handlers h next h' = gateway.handlers h' := by
    intro h' hne
    rw [Function.update_of_ne hne, hhandlers]
  constructor
  · intro hdown
    exact absurd (hsame.trans hserving) hdown
  · intro _
    show SetupToken s gateway'.setupToken
    rw [htoken]
    exact hg.token hserving
  · exact hpending
  · intro h'
    show HandlerOk L s _ (Function.update gateway'.handlers h next h')
    by_cases hne : h' = h
    · rw [hne, hself]
      cases next <;> exact hnext
    · rw [hother h' hne]
      -- while somebody else holds the lock, this handler changes nothing that he relies on
      rcases hothers with hfree | ⟨-, hnone, -⟩
      · exact handlerOk_of_not_holds (hfree h' hne)
      · have hh := hg.handlers h'
        revert hh
        cases gateway.handlers h' with
        | hashing body salt secret =>
          rintro ⟨hp, hbody, hrest⟩
          exact ⟨hnone hp, hbody.trans htoken.symm, hrest⟩
        | _ => exact id
  · intro h' hholds
    replace hholds : (Function.update gateway'.handlers h next h').holds = true := hholds
    show gateway'.locked = true
    by_cases hne : h' = h
    · rw [hne, hself] at hholds
      exact hlock hholds
    · rw [hother h' hne] at hholds
      rcases hothers with hfree | ⟨-, -, hlocked⟩
      · rw [hfree h' hne] at hholds
        cases hholds
      · rw [hlocked]
        exact hg.locked h' hholds
  -- only one handler holds the lock
  · have honly : ∀ h', (Function.update gateway'.handlers h next h').holds = true → h' ≠ h →
        next.holds = false ∧ (gateway.handlers h').holds = true := by
      intro h' hholds hne
      rw [hother h' hne] at hholds
      rcases hothers with hfree | ⟨hnot, -⟩
      · rw [hfree h' hne] at hholds
        cases hholds
      · exact ⟨hnot, hholds⟩
    intro h₁ h₂ hholds₁ hholds₂
    by_cases hne₁ : h₁ = h
    · by_cases hne₂ : h₂ = h
      · rw [hne₁, hne₂]
      · replace hholds₁ : (Function.update gateway'.handlers h next h₁).holds = true := hholds₁
        rw [hne₁, hself, (honly h₂ hholds₂ hne₂).1] at hholds₁
        cases hholds₁
    · by_cases hne₂ : h₂ = h
      · replace hholds₂ : (Function.update gateway'.handlers h next h₂).holds = true := hholds₂
        rw [hne₂, hself, (honly h₁ hholds₁ hne₁).1] at hholds₂
        cases hholds₂
      · exact hg.single h₁ h₂ (honly h₁ hholds₁ hne₁).2 (honly h₂ hholds₂ hne₂).2

end

end Hmux.Bootstrap
