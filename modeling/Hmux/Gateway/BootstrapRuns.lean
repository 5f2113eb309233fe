import Hmux.Gateway.BootstrapInv

namespace Hmux.Bootstrap

open Lib Auth

/-!
# Runs of an enrollment

The steps of the gateways and of their requests, and what follows for every run, whatever the order
of the operations and requests, their errors and the crashes:

* `Inv.stepHandler`, `Inv.step`, `Inv.run` — every step and every run keeps the invariant;
* `credentials_once` — the credentials are written once, by who was authorized, and stay;
* `reads_whole` — whatever can be read is whole, and the two tokens differ.
-/

/-! ### The steps of a gateway

A gateway that starts reads the two tokens and looks for credentials in between; it serves the
enrollment when there are none and the tokens differ. -/

section

variable {L : Library} {s s' : State} {g h p : ℕ} {gateway : Gateway} {fault : Option IoKind}
  {now : ℕ} {env : Env} {next : Gateway} {handler : Handler}

/-- A gateway changes, and nothing else. -/
theorem Inv.changeGateway (hs : Inv L s) (hnext : GatewayOk L s g next) :
    Inv L (s.setGateway g next) := by
  refine hs.setGateway (.refl s) hs.toCore rfl ?_ hnext
  intro new hnew e he
  rw [List.self_eq_append_right.mp hnew] at he
  exact absurd he List.not_mem_nil

/-- A gateway that starts goes on, or gives up. -/
theorem gatewayOk_starting (hg : GatewayOk L s g gateway) (hserving : gateway.serving ≠ .serving)
    {next : Serving} (hnext : next ≠ .serving) :
    GatewayOk L s g { gateway with serving := next } := by
  obtain ⟨hpending, hidle⟩ := hg.down hserving
  refine ⟨fun _ => ⟨hpending, hidle⟩, fun heq => absurd heq hnext, ?_, ?_, hg.locked, hg.single⟩
  · intro p hp
    rw [show gateway.pending = none from hpending] at hp
    cases hp
  · intro h
    show HandlerOk L s _ (gateway.handlers h)
    rw [hidle h]
    trivial

/-- **One operation of a gateway that starts.** -/
theorem Inv.stepGateway (hs : Inv L s) (g : ℕ) (fault : Option IoKind) (now : ℕ) :
    Inv L (s.stepGateway g fault now) := by
  have hg := hs.gateways g
  -- what is read before the gateway serves changes nothing
  have hgoOn : (s.gateways g).serving ≠ .serving → ∀ next : Serving, next ≠ .serving →
      Inv L (s.setGateway g { s.gateways g with serving := next }) :=
    fun hserving next hnext => hs.changeGateway (gatewayOk_starting hg hserving hnext)
  unfold State.stepGateway
  dsimp only
  split
  · exact hs
  · exact hs
  · exact hs
  · exact hs
  -- a failure refuses
  · next hidle hserving hregular hrefused =>
    exact hgoOn hserving _ (fun heq => by cases heq)
  -- the connector token is read
  · next hserving =>
    have hstarting : (s.gateways g).serving ≠ .serving := by
      rw [hserving]
      exact fun heq => by cases heq
    split
    all_goals exact hgoOn hstarting _ (fun heq => by cases heq)
  -- are there credentials already?
  · next hserving =>
    have hstarting : (s.gateways g).serving ≠ .serving := by
      rw [hserving]
      exact fun heq => by cases heq
    split
    all_goals exact hgoOn hstarting _ (fun heq => by cases heq)
  -- they are looked for once more
  · next hserving =>
    have hstarting : (s.gateways g).serving ≠ .serving := by
      rw [hserving]
      exact fun heq => by cases heq
    split
    all_goals exact hgoOn hstarting _ (fun heq => by cases heq)
  -- with the setup token the gateway serves
  · next hserving =>
    have hstarting : (s.gateways g).serving ≠ .serving := by
      rw [hserving]
      exact fun heq => by cases heq
    split
    · next setup hread =>
      split
      · exact hgoOn hstarting _ (fun heq => by cases heq)
      · obtain ⟨hpending, hidle⟩ := hg.down hstarting
        refine hs.changeGateway ⟨fun hdown => absurd rfl hdown, fun _ => hs.setupToken hread, ?_,
          ?_, hg.locked, hg.single⟩
        · intro p hp
          rw [show (s.gateways g).pending = none from hpending] at hp
          cases hp
        · intro h
          show HandlerOk L s _ ((s.gateways g).handlers h)
          rw [hidle h]
          trivial
    · exact hgoOn hstarting _ (fun heq => by cases heq)

end

/-! ### The steps of a request

A request takes the lock, presents what it has, starts a writer and gives the lock back when the
writer is done; a connection that is dropped gives it back at once, while the writer goes on. -/

section

variable {L : Library} {s s' : State} {g h : ℕ} {gateway : Gateway} {env : Env}
  {handler next : Handler}

/-- **A request goes on**, after a step of its own. -/
theorem Inv.handle (hs : Inv L s) (hgrow : Grows s s') (hcore : Core L s')
    (hgateways : s'.gateways = s.gateways)
    (hlog : ∀ new, s'.log = s.log ++ new → ∀ e ∈ new, (∀ g', g' ≠ g → e.begunBy g' = false) ∧
      ((s.gateways g).pending ≠ none → e.begunBy g = false))
    (hserving : (s.gateways g).serving = .serving)
    (hsame : gateway.serving = (s.gateways g).serving)
    (htoken : gateway.setupToken = (s.gateways g).setupToken)
    (hhandlers : gateway.handlers = (s.gateways g).handlers)
    (hpending : ∀ p, gateway.pending = some p → PendingOk L s' g gateway p)
    (hnext : HandlerOk L s' gateway next) (hlock : next.holds = true → gateway.locked = true)
    (hothers : (∀ h', h' ≠ h → ((s.gateways g).handlers h').holds = false) ∨
      next.holds = false ∧ ((s.gateways g).pending = none → gateway.pending = none) ∧
        gateway.locked = (s.gateways g).locked) : Inv L (s'.setHandler g h gateway next) := by
  have hg : GatewayOk L s' g (s.gateways g) := by
    apply (hs.gateways g).grows hgrow
    intro p hp new hnew e he
    refine (hlog new hnew e he).2 ?_
    rw [hp]
    exact fun heq => by cases heq
  exact hs.setGateway hgrow hcore hgateways
    (fun new hnew e he g' hg' => (hlog new hnew e he).1 g' hg')
    (hg.setHandler hserving hsame htoken hhandlers hpending hnext hlock hothers)

/-- Nothing new is logged. -/
theorem log_same (hsame : s'.log = s.log) : ∀ new, s'.log = s.log ++ new → ∀ e ∈ new,
    (∀ g', g' ≠ g → e.begunBy g' = false) ∧ (gateway.pending ≠ none → e.begunBy g = false) := by
  intro new hnew e he
  rw [hsame] at hnew
  rw [List.self_eq_append_right.mp hnew] at he
  exact absurd he List.not_mem_nil

/-- A handler that holds no lock does without one, whoever holds it. -/
theorem Inv.leave (hs : Inv L s) (hserving : (s.gateways g).serving = .serving)
    (hnext : next.holds = false) {attempts : Attempts} :
    Inv L (s.setHandler g h { s.gateways g with attempts } next) := by
  refine hs.handle (.refl s) hs.toCore rfl (log_same rfl) hserving rfl rfl rfl
    (hs.gateways g).pending (handlerOk_of_not_holds hnext) ?_ (.inr ⟨hnext, id, rfl⟩)
  intro heq
  rw [hnext] at heq
  cases heq

/-- Only one handler holds the lock. -/
theorem GatewayOk.alone (hg : GatewayOk L s g gateway)
    (hholds : (gateway.handlers h).holds = true) :
    ∀ h', h' ≠ h → (gateway.handlers h').holds = false := by
  intro h' hne
  by_contra htrue
  rw [Bool.not_eq_false] at htrue
  exact hne (hg.single h' h htrue hholds)

/-- Nobody holds a lock that is free. -/
theorem GatewayOk.free (hg : GatewayOk L s g gateway) (hfree : ¬ gateway.locked = true) (h' : ℕ) :
    (gateway.handlers h').holds = false := by
  by_contra htrue
  rw [Bool.not_eq_false] at htrue
  exact hfree (hg.locked h' htrue)

/-- **`begin`** takes the lock for a form that presents the setup token. -/
theorem Inv.begin (hs : Inv L s) (hserving : (s.gateways g).serving = .serving)
    (hfree : ¬ (s.gateways g).locked = true) (body : BeginBody) (env : Env) :
    Inv L (s.begin g h body env) := by
  have hg := hs.gateways g
  unfold State.begin
  dsimp only
  split
  · exact hs.leave hserving rfl
  · next hchecked =>
    simp only [Bool.not_eq_true, Bool.or_eq_false_iff, Bool.not_eq_eq_eq_not, Bool.not_false,
      bne_eq_false_iff_eq] at hchecked
    refine hs.handle (.refl s) hs.toCore rfl (log_same rfl) hserving rfl rfl rfl ?_ ?_
      (fun _ => rfl)
      (.inl fun h' _ => hg.free hfree h')
    · intro p hp
      cases hp
    · exact ⟨rfl, hchecked.1.2, hchecked.2, Vector.length_toList, Vector.length_toList⟩

/-- The step of a code does not depend on the step before. -/
theorem matchCode_lastStep (c : Credentials) (step : ℤ) (code : String) (seconds : ℤ) :
    ({ c with lastStep := step } : Credentials).matchCode L.toCrypto code seconds =
      c.matchCode L.toCrypto code seconds := rfl

/-- **`complete`** takes the lock for the code of the latest enrollment of the process. -/
theorem Inv.complete (hs : Inv L s) (hserving : (s.gateways g).serving = .serving)
    (hfree : ¬ (s.gateways g).locked = true) (body : CompleteBody) (env : Env) :
    Inv L (s.complete L g h body env) := by
  have hg := hs.gateways g
  unfold State.complete
  dsimp only
  -- the token or the form is wrong
  split
  · exact hs.leave hserving rfl
  · next hchecked =>
    simp only [Bool.not_eq_true, Bool.or_eq_false_iff, bne_eq_false_iff_eq] at hchecked
    -- is an enrollment pending?
    split
    · exact hs.leave hserving rfl
    · next pending hpending =>
      -- an enrollment that has expired is dropped
      split
      · refine hs.handle (.refl s) hs.toCore rfl (log_same rfl) hserving rfl rfl rfl ?_ trivial ?_
          (.inr ⟨rfl, fun _ => rfl, rfl⟩)
        · intro p hp
          cases hp
        · intro heq
          cases heq
      · next hexpires =>
        -- is it the one that is meant?
        split
        · exact hs.leave hserving rfl
        · next hid =>
          simp only [Bool.not_eq_true, bne_eq_false_iff_eq] at hid
          -- is its code right?
          split
          · exact hs.leave hserving rfl
          · next step hstep =>
            -- the credentials that were begun and the code that was presented make those to write
            obtain ⟨c₀, hlatest, hpresented, last, hlast⟩ := hg.pending pending hpending
            have hmatch : c₀.matchCode L.toCrypto body.code env.unixSeconds.toInt = some step := by
              unfold matchesUnusedCode at hstep
              rw [hlast, matchCode_lastStep] at hstep
              exact (Option.filter_eq_some_iff.mp hstep).1
            have hcredentials : ({ pending.credentials with lastStep := step } : Credentials) =
                { c₀ with lastStep := step } := by rw [hlast]
            have hgrow : ∀ e, Grows s { s with log := s.log ++ [e] } :=
              fun e => .side rfl rfl rfl rfl (Nat.le_refl _) (List.prefix_append _ _)
            refine hs.handle (hgrow _) (hs.toCore.same (hgrow _)
              (hs.files.same rfl rfl rfl rfl rfl) rfl)
              rfl ?_ hserving rfl rfl rfl ?_ ?_ (fun _ => rfl) (.inl fun h' _ => hg.free hfree h')
            -- the log has one entry more, of this process
            · intro new hnew e he
              rw [← List.append_cancel_left hnew] at he
              rw [List.mem_singleton.mp he]
              exact ⟨fun _ _ => rfl, fun _ => rfl⟩
            · intro p hp
              obtain rfl := Option.some.inj hp
              refine ⟨c₀, hlatest.append ?_, hpresented, step, hcredentials⟩
              intro e he
              rw [List.mem_singleton.mp he]
              rfl
            · -- the confirmed enrollment is the latest one of this process
              refine .inr ⟨g, body.token, c₀, body.enrollmentId, pending.expires, body.code,
                env.now, env.unixSeconds, step, s.log, [], rfl, ?_, ?_, ?_,
                Nat.lt_of_not_le hexpires, hmatch, hcredentials⟩
              · rw [hchecked.2, hid]
                exact hlatest
              · rw [hchecked.2]
                exact (hg.token hserving).grows (hgrow _)
              · rw [hchecked.2]
                exact hpresented

/-- The lock is given back by its holder. -/
theorem Inv.unlock (hs : Inv L s) (hserving : (s.gateways g).serving = .serving)
    (hholds : ((s.gateways g).handlers h).holds = true) {pending : Option Pending}
    (hpending : pending = none ∨ pending = (s.gateways g).pending) :
    Inv L (s.setHandler g h { s.gateways g with locked := false, pending } .idle) := by
  have hg := hs.gateways g
  refine hs.handle (.refl s) hs.toCore rfl (log_same rfl) hserving rfl rfl rfl ?_ trivial ?_
    (.inl (hg.alone hholds))
  · intro p hp
    rcases hpending with rfl | rfl
    · cases hp
    · exact hg.pending p hp
  · intro heq
    cases heq

/-- **A writer of credentials is started** by the holder of the lock. -/
theorem Inv.persist (hs : Inv L s) (hserving : (s.gateways g).serving = .serving)
    (hholds : ((s.gateways g).handlers h).holds = true) {new : List Entry} {c : Credentials}
    (hs' : s' = { s with log := s.log ++ new })
    (hnew : ∀ e ∈ new, (∀ g', g' ≠ g → e.begunBy g' = false) ∧
      ((s.gateways g).pending ≠ none → e.begunBy g = false))
    (hauthorized : Authorized L s' c) (confirmed : Bool) :
    Inv L ((s'.spawn (.gateway g) .credentials (bytes (goJson c))).setHandler g h (s.gateways g)
      (.persisting s.started confirmed)) := by
  have hg := hs.gateways g
  subst hs'
  have hgrow : Grows s { s with log := s.log ++ new } :=
    .side rfl rfl rfl rfl (Nat.le_refl _) (List.prefix_append _ _)
  have hcore : Core L { s with log := s.log ++ new } :=
    hs.toCore.same hgrow (hs.files.same rfl rfl rfl rfl rfl) rfl
  have hwritten : ∃ c', bytes (goJson c) = bytes (goJson c') ∧
      Authorized L { s with log := s.log ++ new } c' := ⟨c, Eq.refl _, hauthorized⟩
  generalize bytes (goJson c) = data at hwritten ⊢
  have hspawn := hgrow.trans (.spawn _ (.gateway g) .credentials data)
  have hcore' : Core L
      (({ s with log := s.log ++ new } : State).spawn (.gateway g) .credentials data) := by
    have hother : ¬ (Name.credentials = .setup ∨ Name.credentials = .connector) := by decide
    have hknown : WriterKnown L { s with log := s.log ++ new }
        ⟨.gateway g, .credentials, data, .creating⟩ :=
      ⟨fun htoken => absurd htoken hother, fun _ => hwritten⟩
    exact hcore.spawn (fun m heq => by cases heq) hknown fun htoken => absurd htoken hother
  refine hs.handle hspawn hcore' rfl ?_ hserving rfl rfl rfl ?_ trivial
    (fun _ => hg.locked h hholds)
    (.inl (hg.alone hholds))
  · intro new' hnew' e he
    rw [← List.append_cancel_left hnew'] at he
    exact hnew e he
  · intro p hp
    obtain ⟨c₀, hlatest, hrest⟩ := hg.pending p hp
    refine ⟨c₀, hlatest.append fun e he => (hnew e he).2 ?_, hrest⟩
    rw [hp]
    exact fun heq => by cases heq

/-- **A request goes on.** -/
theorem Inv.stepHandler (hs : Inv L s) (g h : ℕ) (env : Env) : Inv L (s.stepHandler L g h env) := by
  have hg := hs.gateways g
  have hok := hg.handlers h
  have hserving : (s.gateways g).handlers h ≠ .idle → (s.gateways g).serving = .serving :=
    fun hne => hg.serving hne
  unfold State.stepHandler
  dsimp only
  cases hhandler : (s.gateways g).handlers h with
  | idle => exact hs
  -- a request is admitted if there are attempts left
  | arrived r =>
    have hserving := hserving (by rw [hhandler]; exact fun heq => by cases heq)
    dsimp only
    split
    · exact hs.leave hserving rfl
    · exact hs.leave hserving rfl
  -- it gets the lock, unless somebody has it
  | admitted r =>
    have hserving := hserving (by rw [hhandler]; exact fun heq => by cases heq)
    dsimp only
    split
    · exact hs.leave hserving rfl
    · next hfree =>
      cases r with
      | begin body => exact hs.begin hserving hfree body env
      | complete body => exact hs.complete hserving hfree body env
  -- the password is hashed: the enrollment is complete, or waits for its code
  | hashing body salt secret =>
    have hserving := hserving (by rw [hhandler]; exact fun heq => by cases heq)
    have hholds : ((s.gateways g).handlers h).holds = true := by rw [hhandler]; rfl
    rw [hhandler] at hok
    obtain ⟨hnone, htoken, hvalid, hsalt, hsecret⟩ := hok
    have hpresented : ∀ enabled, body.totpEnabled = enabled →
        Presented L (s.gateways g).setupToken enabled (State.enrolled L body salt secret) :=
      fun enabled heq => ⟨body, ⟨salt.toArray, hsalt⟩, ⟨secret.toArray, hsecret⟩, htoken, heq,
        hvalid, rfl⟩
    dsimp only
    split
    · exact hs.unlock hserving hholds (.inr rfl)
    · split
      -- with a second factor it becomes the pending one
      · next henabled =>
        have hgrow : ∀ e, Grows s { s with drawn := s.drawn + 1, log := s.log ++ [e] } :=
          fun e => .side rfl rfl rfl rfl (Nat.le_succ _) (List.prefix_append _ _)
        refine hs.handle (hgrow _)
          (hs.toCore.same (hgrow _) (hs.files.same rfl rfl rfl rfl rfl) rfl) rfl ?_ hserving rfl rfl
          rfl ?_ trivial ?_ (.inl (hg.alone hholds))
        · intro new hnew e he
          rw [← List.append_cancel_left hnew] at he
          rw [List.mem_singleton.mp he]
          exact ⟨fun g' hne => beq_false_of_ne hne.symm, fun hsome => absurd hnone hsome⟩
        · intro p hp
          obtain rfl := Option.some.inj hp
          refine ⟨State.enrolled L body salt secret, ?_, hpresented true henabled, 0, rfl⟩
          rw [← htoken]
          exact latest_self ..
        · intro heq
          cases heq
      -- without one its credentials are written
      · next henabled =>
        refine hs.persist hserving hholds rfl ?_ ?_ false
        · intro e he
          rw [List.mem_singleton.mp he]
          exact ⟨fun g' hne => beq_false_of_ne hne.symm, fun hsome => absurd hnone hsome⟩
        · refine .inl ⟨g, body.token, ?_, ?_, ?_⟩
          · exact List.mem_append_right _ List.mem_cons_self
          · rw [htoken]
            exact (hg.token hserving)
          · rw [htoken]
            exact hpresented false (Bool.not_eq_true _ ▸ henabled)
  -- a confirmed enrollment is written
  | confirming c =>
    have hserving := hserving (by rw [hhandler]; exact fun heq => by cases heq)
    have hholds : ((s.gateways g).handlers h).holds = true := by rw [hhandler]; rfl
    rw [hhandler] at hok
    dsimp only
    split
    · exact hs.unlock hserving hholds (.inr rfl)
    · have hlog : s = { s with log := s.log ++ [] } := by rw [List.append_nil]
      exact hs.persist hserving hholds hlog (fun e he => absurd he List.not_mem_nil) hok true
  -- the writer is done, or still writes
  | persisting k confirmed =>
    have hserving := hserving (by rw [hhandler]; exact fun heq => by cases heq)
    have hholds : ((s.gateways g).handlers h).holds = true := by rw [hhandler]; rfl
    dsimp only
    split
    · exact hs.unlock hserving hholds (by split <;> simp)
    · exact hs.unlock hserving hholds (.inr rfl)
    · exact hs

/-- **A request is dropped.** -/
theorem Inv.dropHandler (hs : Inv L s) (g h : ℕ) : Inv L (s.dropHandler g h) := by
  have hg := hs.gateways g
  unfold State.dropHandler
  dsimp only
  have hunlock : ((s.gateways g).handlers h).holds = true →
      Inv L (s.setHandler g h { s.gateways g with locked := false } .idle) := by
    intro hholds
    have hserving : (s.gateways g).serving = .serving := by
      apply hg.serving (h := h)
      intro hidle
      rw [hidle] at hholds
      cases hholds
    exact hs.unlock hserving hholds (.inr rfl)
  split
  · next hhandler => exact hunlock (by rw [hhandler]; rfl)
  · next hhandler => exact hunlock (by rw [hhandler]; rfl)
  · next hhandler => exact hunlock (by rw [hhandler]; rfl)
  · by_cases hidle : (s.gateways g).handlers h = .idle
    · -- nothing to drop
      apply hs.changeGateway
      have hsame : Function.update (s.gateways g).handlers h .idle = (s.gateways g).handlers := by
        rw [← hidle, Function.update_eq_self]
      rw [hsame]
      exact hg
    · exact hs.leave (hg.serving hidle) rfl

end

/-! ### Runs

Every reachable state has the invariant, and the two theorems are read off it. -/

namespace Grows

variable {L : Library} {s : State}

theorem stepInit (s : State) (p : ℕ) (fault : Option IoKind) : Grows s (s.stepInit L p fault) := by
  -- a step of the call alone writes nothing
  have hset : ∀ next, Grows s (s.setInit p next) :=
    fun next => .side rfl rfl rfl rfl (Nat.le_refl _) (List.prefix_refl _)
  -- a token that is drawn starts one writer
  have hdraw : ∀ target data next, Grows s
      (({ s.spawn (.init p) target data with drawn := s.drawn + 1 } : State).setInit p next) :=
    fun target data next => (Grows.spawn s (.init p) target data).trans
      (.side rfl rfl rfl rfl (Nat.le_succ _) (List.prefix_refl _))
  unfold State.stepInit
  split
  · exact .refl s
  · exact .refl s
  · split
    any_goals exact hset _
    exact .refl s
  · exact hset _
  · split
    all_goals exact hset _
  · split
    all_goals exact hset _
  · split
    · exact hset _
    · split
      all_goals exact hset _
    · exact hset _
  · split
    · split
      all_goals exact hset _
    · exact hdraw _ _ _
    · exact hset _
  · split
    · split
      all_goals exact hset _
    · exact hset _
  · split
    all_goals exact hset _
  · split
    · split
      all_goals exact hset _
    · exact hset _

theorem setGateway (s : State) (g : ℕ) (next : Gateway) : Grows s (s.setGateway g next) :=
  .side rfl rfl rfl rfl (Nat.le_refl _) (List.prefix_refl _)

theorem stepGateway (s : State) (g : ℕ) (fault : Option IoKind) (now : ℕ) :
    Grows s (s.stepGateway g fault now) := by
  unfold State.stepGateway
  dsimp only
  split
  any_goals exact .refl s
  any_goals exact setGateway s g _
  · split
    all_goals exact setGateway s g _
  · split
    all_goals exact setGateway s g _
  · split
    all_goals exact setGateway s g _
  · split
    · split
      all_goals exact setGateway s g _
    · exact setGateway s g _

theorem stepHandler (s : State) (g h : ℕ) (env : Env) : Grows s (s.stepHandler L g h env) := by
  -- a handler that only moves on, one that draws and logs, and one that starts a writer
  have hset : ∀ gateway next, Grows s (s.setHandler g h gateway next) :=
    fun gateway next => setGateway s g _
  have hlog : ∀ drawn log gateway next, s.drawn ≤ drawn → s.log <+: log →
      Grows s (({ s with drawn, log } : State).setHandler g h gateway next) :=
    fun drawn log gateway next hdrawn hlog => .side rfl rfl rfl rfl hdrawn hlog
  have hspawn : ∀ s' owner target data gateway next, Grows s s' →
      Grows s ((s'.spawn owner target data).setHandler g h gateway next) :=
    fun s' owner target data gateway next hs' =>
      (hs'.trans (Grows.spawn s' owner target data)).trans (setGateway _ g _)
  unfold State.stepHandler
  dsimp only
  split
  · exact .refl s
  · split
    all_goals exact hset _ _
  · split
    · exact hset _ _
    -- `begin` or `complete`, when the lock is free
    · split
      · unfold State.begin
        dsimp only
        split
        all_goals exact hset _ _
      · unfold State.complete
        dsimp only
        split
        · exact hset _ _
        · split
          · exact hset _ _
          · split
            · exact hset _ _
            · split
              · exact hset _ _
              · split
                · exact hset _ _
                · exact hlog _ _ _ _ (Nat.le_refl _) (List.prefix_append _ _)
  · split
    · exact hset _ _
    · split
      · exact hlog _ _ _ _ (Nat.le_succ _) (List.prefix_append _ _)
      · exact hspawn _ _ _ _ _ _ (.side rfl rfl rfl rfl (Nat.le_refl _) (List.prefix_append _ _))
  · split
    · exact hset _ _
    · exact hspawn _ _ _ _ _ _ (.refl s)
  · split
    · exact hset _ _
    · exact hset _ _
    · exact .refl s

/-- **One step** takes nothing back. -/
theorem step (s : State) (e : Event) : Grows s (s.step L e) := by
  cases e with
  | startInit p =>
    unfold State.step
    dsimp only
    split
    · exact .side rfl rfl rfl rfl (Nat.le_refl _) (List.prefix_refl _)
    · exact .refl s
  | stepInit p fault => exact stepInit s p fault
  | crashInit p =>
    exact (killWriters s _).trans (.side rfl rfl rfl rfl (Nat.le_refl _) (List.prefix_refl _))
  | startGateway g =>
    unfold State.step
    dsimp only
    split
    · exact setGateway s g _
    · exact .refl s
  | stepGateway g fault now => exact stepGateway s g fault now
  | crashGateway g => exact (killWriters s _).trans (setGateway _ g _)
  | request g h r =>
    unfold State.step
    dsimp only
    split
    · exact setGateway s g _
    · exact .refl s
  | stepHandler g h env => exact stepHandler s g h env
  | dropHandler g h =>
    unfold State.step State.dropHandler
    dsimp only
    split
    all_goals exact setGateway s g _
  | stepWriter k fault => exact stepWriter s k fault

/-- **A run** takes nothing back. -/
theorem run (s : State) (events : List Event) : Grows s (s.run L events) := by
  induction events generalizing s with
  | nil => exact .refl s
  | cons e events ih => exact (step s e).trans (ih _)

end Grows

section

variable {L : Library} {s : State}

/-- **One step** keeps what holds in every state. -/
theorem Inv.step (h : Inv L s) (e : Event) (hfresh : Fresh L (s.step L e).drawn) :
    Inv L (s.step L e) := by
  have hdown : ∀ g next, next ≠ .serving → ∀ s' : State, GatewayOk L s' g
      { Gateway.down with serving := next } := fun g next hnext s' => gatewayOk_down L s' g hnext
  cases e with
  | startInit p =>
    unfold State.step
    dsimp only
    split
    · exact h.setInit p _
    · exact h
  | stepInit p fault => exact h.stepInit p fault hfresh
  | crashInit p => exact (h.killWriters _).setInit p _
  | startGateway g =>
    unfold State.step
    dsimp only
    split
    · exact h.changeGateway (hdown g .loadConnector (fun heq => by cases heq) s)
    · exact h
  | stepGateway g fault now => exact h.stepGateway g fault now
  | crashGateway g =>
    exact (h.killWriters _).changeGateway (hdown g .idle (fun heq => by cases heq) _)
  | request g handler r =>
    unfold State.step
    dsimp only
    split
    · next hserving _ => exact h.leave hserving rfl
    · exact h
  | stepHandler g handler env => exact h.stepHandler g handler env
  | dropHandler g handler => exact h.dropHandler g handler
  | stepWriter k fault => exact h.stepWriter k fault

/-- Nothing has happened yet. -/
theorem inv_init (L : Library) : Inv L .init where
  files := by
    have hnone : ∀ n k, State.init.dir.names n ≠ some k := fun n k hn => by cases hn
    refine ⟨fun n k hn => absurd hn (hnone n k), fun n k hn => absurd hn (hnone n k), fun k => ?_⟩
    constructor
    · exact fun m heq => by cases heq
    · rfl
    · exact fun _ => ⟨hnone _ k, hnone _ k⟩
    · rintro (heq | heq)
      · cases heq
      · cases heq
    · exact fun _ _ => hnone _ k
    · rintro (heq | heq)
      · cases heq
      · exact absurd heq (hnone _ k)
    · exact fun hn => absurd hn (hnone _ k)
    · exact fun heq => by cases heq
    · exact fun heq => by cases heq
  known k hk := absurd hk (Nat.not_lt_zero k)
  drawn k hk := absurd hk (Nat.not_lt_zero k)
  gateways g := gatewayOk_down L _ g (fun heq => by cases heq)

/-- **Every run** keeps what holds in every state. -/
theorem Inv.run (h : Inv L s) (events : List Event) (hfresh : Fresh L (s.run L events).drawn) :
    Inv L (s.run L events) := by
  induction events generalizing s with
  | nil => exact h
  | cons e events ih =>
    have hlater : Grows (s.step L e) ((s.step L e).run L events) := .run _ events
    exact ih (h.step e (hfresh.mono hlater.drawn)) hfresh

/-- A published file keeps its text. -/
theorem Inv.kept (h : Inv L s) (events : List Event) (hfresh : Fresh L (s.run L events).drawn)
    {n : Name} (hn : n = .credentials ∨ n = .connector) {j : ℕ} (hj : s.dir.names n = some j) :
    (s.run L events).dir.names n = some j ∧ (s.run L events).dir.bytes j = s.dir.bytes j := by
  have hs : Grows s (s.run L events) := .run s events
  have hlater := h.run events hfresh
  have hj' := hs.kept n hn j hj
  obtain ⟨hstarted, htarget⟩ := h.files.owned n j hj
  have htarget := htarget.resolve_left
    (by rcases hn with rfl | rfl <;> exact fun heq => by cases heq)
  have hdata := (h.files.writers j).data (.inr (htarget ▸ hj))
  have htarget' : n = ((s.run L events).writers j).target := by rw [hs.target j hstarted, htarget]
  have hdata' := (hlater.files.writers j).data (.inr (htarget' ▸ hj'))
  exact ⟨hj', by rw [hdata', hdata, hs.data j hstarted]⟩

/-- **The credentials are written once, by who was authorized.**  In every run of any number of
    processes, with errors and crashes between any two file system operations and distinct random
    values: when there is a credentials file, it has the text of credentials of a form that
    presented the setup token; if that form asked for a second factor, they were confirmed under the
    same token, with the identifier of the then latest enrollment of that process, before it
    expired, and by a code whose step is their last step.  Whatever operations of an enrollment come
    afterwards, of any process, the file stays what it is: only a regular gateway writes credentials
    again. -/
theorem credentials_once (events later : List Event)
    (hfresh : Fresh L ((State.init.run L events).run L later).drawn) {j : ℕ}
    (hj : (State.init.run L events).dir.names .credentials = some j) :
    (∃ c, (State.init.run L events).dir.bytes j = bytes (goJson c) ∧
        Authorized L (State.init.run L events) c) ∧
      ((State.init.run L events).run L later).dir.names .credentials = some j ∧
      ((State.init.run L events).run L later).dir.bytes j =
        (State.init.run L events).dir.bytes j := by
  have hlater : Grows (State.init.run L events) ((State.init.run L events).run L later) :=
    .run _ later
  have h := (inv_init L).run events (hfresh.mono hlater.drawn)
  refine ⟨?_, h.kept later hfresh (.inl rfl) hj⟩
  obtain ⟨hstarted, htarget⟩ := h.files.owned _ j hj
  have htarget := htarget.resolve_left (fun heq => by cases heq)
  obtain ⟨c, hdata, hc⟩ := (h.known j hstarted).credentials htarget.symm
  exact ⟨c, ((h.files.writers j).data (.inr (htarget ▸ hj))).trans hdata, hc⟩

/-- **What is read is whole.**  In every run: a credentials file that can be read has the text of
    credentials that may be written, a token file that can be read has a valid token, and the two
    tokens differ.  A file is refused for its link count only between the two operations of its
    writer, or after a writer was cut off there. -/
theorem reads_whole (events : List Event) (hfresh : Fresh L (State.init.run L events).drawn)
    (max : ℕ) :
    (∀ raw, (State.init.run L events).dir.readPrivate .credentials max = .ok raw →
      ∃ c, raw = bytes (goJson c) ∧ Authorized L (State.init.run L events) c) ∧
    (∀ t : Token, ∀ raw, (State.init.run L events).dir.readPrivate t.name max = .ok raw →
      (parseToken raw).isSome = true) ∧
    (∀ raw raw', (State.init.run L events).dir.readPrivate .setup max = .ok raw →
      (State.init.run L events).dir.readPrivate .connector max = .ok raw' →
      parseToken raw ≠ parseToken raw') ∧
    (∀ n, (∀ m, n ≠ .temp m) →
      (State.init.run L events).dir.readPrivate n max = .error .permissionDenied →
      ∃ k < (State.init.run L events).started, ((State.init.run L events).writers k).target = n ∧
        (((State.init.run L events).writers k).phase.linked = true ∨
          (State.init.run L events).cut k = true)) := by
  have h := (inv_init L).run events hfresh
  revert h
  generalize State.init.run L events = s
  intro h
  have hcredentials : ∀ m, Name.credentials ≠ .temp m := fun m heq => by cases heq
  have hsetup : ∀ m, Name.setup ≠ .temp m := fun m heq => by cases heq
  have hconnector : ∀ m, Name.connector ≠ .temp m := fun m heq => by cases heq
  refine ⟨fun raw hread => ?_, fun t raw hread => ?_, fun raw raw' hread hread' heq => ?_,
    fun n hn hread => ?_⟩
  -- the first three parts are facts about what a writer was given
  · obtain ⟨k, hk, -, htarget, hdata⟩ := h.read hcredentials hread
    obtain ⟨c, hc, hauthorized⟩ := (h.known k hk).credentials htarget
    exact ⟨c, hdata.symm.trans hc, hauthorized⟩
  · have htemp : ∀ m, t.name ≠ .temp m := by
      cases t
      · exact hconnector
      · exact hsetup
    obtain ⟨k, hk, -, htarget, hdata⟩ := h.read htemp hread
    obtain ⟨i, -, hi⟩ := (h.known k hk).token (by cases t <;> simp [htarget, Token.name])
    rw [← hdata, hi, parseToken_randomToken]
    rfl
  · obtain ⟨k, hk, -, htarget, hdata⟩ := h.read hsetup hread
    obtain ⟨k', hk', -, htarget', hdata'⟩ := h.read hconnector hread'
    have hne : k ≠ k' := by
      rintro rfl
      rw [htarget] at htarget'
      cases htarget'
    have hdiffer := h.drawn k hk k' hk' hne (.inl htarget) (.inr htarget')
    obtain ⟨i, -, hi⟩ := (h.known k hk).token (.inl htarget)
    obtain ⟨i', -, hi'⟩ := (h.known k' hk').token (.inr htarget')
    rw [← hdata, ← hdata', hi, hi', parseToken_randomToken, parseToken_randomToken] at heq
    rw [hi, hi', Option.some.inj heq] at hdiffer
    exact hdiffer rfl
  -- a file with two links is one whose writer is between its two names
  · obtain ⟨k, hk, hlinks⟩ := LinkDir.readPrivate_denied hread
    obtain ⟨hstarted, htarget⟩ := h.files.owned n k hk
    have htarget := htarget.resolve_left (hn k)
    have hw := h.files.writers k
    refine ⟨k, hstarted, htarget.symm, hw.both ?_ (htarget ▸ hk)⟩
    by_contra htemp
    have hone := hw.links
    rw [if_neg htemp, if_pos (htarget ▸ hk)] at hone
    exact hlinks hone

end

/-! ### An enrollment with a second factor

From the empty directory to credentials, followed by what comes too late. -/

namespace EnrollmentExample

/-- A library whose random values are the numbers of their draws, and whose codes are all zero. -/
def library : Library where
  sha256 _ := Vector.replicate 32 0
  pbkdf2 _ _ := Vector.replicate 32 0
  hmacSha1 _ _ := Vector.replicate 20 0
  base32 _ := some (List.replicate 20 0)
  encode32 _ := "AAAAAAAAAAAAAAAAAAAAAAAAAAAAAAAA"
  parseJson _ := none
  random n := Vector.replicate 32 (UInt8.ofNat n)

/-- A form that asks for a second factor. -/
def form : BeginBody := ⟨randomToken library 1, "sara", "long enough", "long enough", true⟩

/-- The code that confirms it. -/
def code : CompleteBody := ⟨randomToken library 1, randomToken library 2, "000000"⟩

def env : Env := ⟨none, 0, 60, Vector.replicate 32 1, Vector.replicate 20 2⟩

/-- A writer works through its operations, up to the link. -/
def publish (k : ℕ) : List Event := List.replicate 3 (.stepWriter k none)

/-- `initialize`, a gateway, a form that it takes and the code for it, up to the link of the
    credentials. -/
def events : List Event :=
  .startInit 0 :: List.replicate 4 (.stepInit 0 none) ++ publish 0 ++
    List.replicate 2 (.stepWriter 0 none) ++ List.replicate 2 (.stepInit 0 none) ++ publish 1 ++
    List.replicate 2 (.stepWriter 1 none) ++ List.replicate 3 (.stepInit 0 none) ++
    .startGateway 0 :: List.replicate 4 (.stepGateway 0 none 0) ++
    .request 0 0 (.begin form) :: List.replicate 3 (.stepHandler 0 0 env) ++
    .request 0 1 (.complete code) :: List.replicate 3 (.stepHandler 0 1 env) ++ publish 2

/-- The credentials are synced and the setup token is retired, another form comes too late, the
    process dies, `initialize` is called again and a new process finds the credentials. -/
def later : List Event :=
  List.replicate 3 (.stepWriter 2 none) ++ .stepHandler 0 1 env ::
    .request 0 0 (.begin form) :: .stepHandler 0 0 env ::
    .crashGateway 0 :: .startInit 1 :: .stepInit 1 none ::
    .startGateway 1 :: List.replicate 2 (.stepGateway 1 none 0)

theorem drawn_events : (State.init.run library events).drawn = 3 := by decide +kernel

theorem drawn_later : ((State.init.run library events).run library later).drawn = 3 := by
  decide +kernel

theorem fresh : Fresh library 3 := by
  unfold Fresh
  decide

theorem linked : (State.init.run library events).dir.names .credentials = some 2 := by
  decide +kernel

/-- The credentials are those of the form, and they stay. -/
theorem enrolled_once :
    (∃ c, (State.init.run library events).dir.bytes 2 = bytes (goJson c) ∧
        Authorized library (State.init.run library events) c) ∧
      ((State.init.run library events).run library later).dir.names .credentials = some 2 ∧
      ((State.init.run library events).run library later).dir.bytes 2 =
        (State.init.run library events).dir.bytes 2 :=
  credentials_once events later (by rw [drawn_later]; exact fresh) linked

/-- The file of the setup token is read, and has a token. -/
theorem setup_read : ∃ raw, (State.init.run library events).dir.readPrivate .setup 256 = .ok raw ∧
    (parseToken raw).isSome = true := by
  have hread : ((State.init.run library events).dir.readPrivate .setup 256).isOk = true := by
    decide +kernel
  cases hraw : (State.init.run library events).dir.readPrivate .setup 256 with
  | error e =>
    rw [hraw] at hread
    cases hread
  | ok raw =>
    have hfresh : Fresh library (State.init.run library events).drawn := by
      rw [drawn_events]
      exact fresh
    exact ⟨raw, rfl, (reads_whole events hfresh 256).2.1 .setup raw hraw⟩

end EnrollmentExample

end Hmux.Bootstrap
