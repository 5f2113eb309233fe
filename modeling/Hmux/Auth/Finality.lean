import Hmux.Auth.Cancellation

namespace Hmux.Auth

open Lib

/-!
# Revocation is final

A session is removed when it is revoked or logged out, when it has expired, when it makes room for
another login of its account and when the switch of its account is turned.  Each of these replaces
the session file and the sessions in memory by what is left, so the session comes back neither from
memory nor from the file.

* `Entry.Removes` — at some moment of a call the store works and the session is not stored;
* `Run.lacks_removed` — after the call it is neither in the file nor in the memory of a store that
  works;
* `revocation_final` — it is never found again, and its connections are cancelled.
-/

section

variable {C : Crypto} {S : Serde} {parseTime : String → Option ℤ} {disk : Disk}
  {history : List Entry} {w : World}

/-- At some moment of the call the store works and has no session with this key: after the call, or
    in the course of it, whatever fails afterwards. -/
inductive Entry.Removes (C : Crypto) (e : Entry) (key : String) : Prop
  | after (s : Store) : e.after.store = some s → s.state.storageFailed = false →
      s.state.sessions.get? key = none → e.Removes C key
  | within (s₀ s : Store) (t t' : Tx) : e.before.store = some s₀ →
      Moves C e.call.tokens e.call.ids ⟨s₀.state, e.before.disk⟩ t →
      t.state.storageFailed = false → t.state.sessions.get? key = none →
      Moves C e.call.tokens e.call.ids t t' → Follows s₀ t'.state s →
      e.after = ⟨t'.disk, some s⟩ → e.Removes C key

/-- No login draws the token of a session or its id. -/
structure Call.Spares (C : Crypto) (call : Call) (key id : String) : Prop where
  token : ∀ drawn ∈ call.tokens, tokenHash C (Base64.urlSafeNoPad drawn.toList) ≠ key
  id : ∀ drawn ∈ call.ids, Base64.urlSafeNoPad drawn.toList ≠ id

theorem Call.Spares.drawn {call : Call} {key id : String} (h : call.Spares C key id)
    (k i : String) (hdrawn : Drawn C call.tokens call.ids k i) : ¬ (k = key ∨ i = id) := by
  obtain ⟨token, htoken, bytes, hbytes, rfl, rfl⟩ := hdrawn
  rintro (hkey | hid)
  · exact h.token token htoken hkey
  · exact h.id bytes hbytes hid

/-- **A session that is removed** is neither in the file nor in the memory of a store that works. -/
theorem Run.lacks_removed (hserde : ReadsRows S) {earlier : List Entry} {e : Entry}
    (hrun : Run C S parseTime disk (e :: earlier) w) {key : String} {s₀ : Store}
    (hs₀ : e.before.store = some s₀) (hopen₀ : s₀.state.storageFailed = false) {x : Session}
    (hx : s₀.state.sessions.get? key = some x) (hremoves : e.Removes C key)
    (hspares : e.call.Spares C key x.id) : w.Lacks S fun k id => k = key ∨ id = x.id := by
  obtain ⟨hbefore, hentry⟩ := hrun.at_entry (List.nil_append (e :: earlier)).symm
  have hworld : w = e.after := by
    cases hrun
    rfl
  -- no other session has the id
  have hother : s₀.state.Lacks fun k id => id = x.id ∧ k ≠ key := by
    rintro k y hy ⟨hid, hkey⟩
    exact hkey ((hbefore.sound s₀ hs₀ hopen₀).ids k _ y x hy hx hid)
  have hlacks := hbefore.lacks_of_gone hserde hs₀ hopen₀ hother
  have hdraws : ∀ k id, Drawn C e.call.tokens e.call.ids k id → ¬ (id = x.id ∧ k ≠ key) :=
    fun k id hdrawn h => hspares.drawn k id hdrawn (.inr h.1)
  have hnone : ∀ sessions : Table String Session, sessions.get? key = none →
      (∀ k y, sessions.get? k = some y → ¬ (y.id = x.id ∧ k ≠ key)) →
      ∀ k y, sessions.get? k = some y → ¬ (k = key ∨ y.id = x.id) := by
    rintro sessions hgone hrest k y hy (rfl | hid)
    · rw [hgone] at hy
      cases hy
    · refine hrest k y hy ⟨hid, ?_⟩
      rintro rfl
      rw [hgone] at hy
      cases hy
  cases hremoves with
  | after s hs hopen hgone =>
    have hsteps : Steps C S parseTime e.before e.call e.reply e.after := by
      rw [hentry]
      exact World.step_cases _ _
    have hrest := (hlacks.step hserde hsteps hdraws).store s hs hopen
    refine hrun.lacks_of_gone hserde (by rw [hworld]; exact hs) hopen ?_
    exact hnone _ hgone hrest
  | within s₀' s t t' hs₀' hmoves hopen hgone hmoves' hfollows hafter =>
    obtain rfl : s₀' = s₀ := Option.some.inj (hs₀'.symm.trans hs₀)
    -- what the file has at that moment, the store has
    have hcovered : Covered S t.state t.disk :=
      Moves.covered hserde hmoves (hbefore.covered hserde s₀' hs₀) hopen
    have hrest := (Moves.lacks hserde hmoves hdraws hlacks.disk (hlacks.store s₀' hs₀)).2 hopen
    have hstate : t.state.Lacks fun k id => k = key ∨ id = x.id := hnone _ hgone hrest
    have hdisk : t.disk.Lacks S fun k id => k = key ∨ id = x.id := by
      intro row hrow
      obtain ⟨y, hy, hid⟩ := hcovered row hrow
      rw [← hid]
      exact hstate _ y hy
    obtain ⟨hdisk', hstate'⟩ :=
      Moves.lacks hserde hmoves' hspares.drawn hdisk fun _ => hstate
    obtain ⟨extra, hcancel, -⟩ := hfollows.cancelled
    rw [hworld, hafter]
    refine ⟨hdisk', fun s' hs' hopen' => ?_⟩
    obtain rfl := Option.some.inj hs'
    rw [hcancel] at hopen' ⊢
    exact hstate' hopen'

/-- A lookup finds no session with this id, and none by a token of this key. -/
def Entry.Misses (C : Crypto) (e : Entry) (key id : String) : Prop :=
  ¬ e.reply.Shows id ∧ ∀ token, tokenHash C token = key → e.call.token = some token →
    ¬ e.reply.Knows

theorem Run.misses (hserde : ReadsRows S) (hrun : Run C S parseTime disk history w)
    {later earlier : List Entry} {e : Entry} (hsplit : history = later ++ e :: earlier)
    {key id : String} (hbase : ∀ w, Run C S parseTime disk (e :: earlier) w →
      w.Lacks S fun k i => k = key ∨ i = id)
    (hspares : ∀ e' ∈ later, e'.call.Spares C key id) : ∀ e' ∈ later, e'.Misses C key id := by
  intro e' he
  refine ⟨?_, ?_⟩
  · refine hrun.not_shown hserde hsplit id (fun w hw => ?_) (fun e' he => (hspares e' he).id) e' he
    exact ⟨fun row hrow h => (hbase w hw).disk row hrow (.inr h),
      fun s hs hopen k y hy h => (hbase w hw).store s hs hopen k y hy (.inr h)⟩
  · rintro token rfl
    refine hrun.not_known hserde hsplit token (fun w hw => ?_) (fun e' he => (hspares e' he).token)
      e' he
    exact ⟨fun row hrow h => (hbase w hw).disk row hrow (.inl h),
      fun s hs hopen k y hy h => (hbase w hw).store s hs hopen k y hy (.inl h)⟩

/-- **Revocation is final.**  Over any run with failing writes and restarts:

    * a session that a store that works had before a call and does not have at some moment of it is
      never found again, by its token or by its id;
    * after a revocation that is answered with `Ok` no later answer shows the id, and after a logout
      that is answered with `Ok` no later call accepts the token;
    * an access that was handed out is cancelled or its session is stored, as long as the gateway
      runs, and while the storage works and the connections are not closed it is cancelled exactly
      if its session is not stored any more.

    No login draws the token or the id of the session again. -/
theorem revocation_final (hserde : ReadsRows S) (hrun : Run C S parseTime disk history w)
    {later earlier : List Entry} {e : Entry} (hsplit : history = later ++ e :: earlier) :
    (∀ s₀ key x, e.before.store = some s₀ → s₀.state.storageFailed = false →
      s₀.state.sessions.get? key = some x → e.Removes C key →
      (∀ e' ∈ e :: later, e'.call.Spares C key x.id) → ∀ e' ∈ later, e'.Misses C key x.id) ∧
    (∀ token id now admitted prune save own, e.call = .revoke token id now admitted prune save →
      e.reply = .revoked (.ok own) →
      (∀ e' ∈ later, ∀ drawn ∈ e'.call.ids, Base64.urlSafeNoPad drawn.toList ≠ id) →
      ∀ e' ∈ later, ¬ e'.reply.Shows id) ∧
    (∀ token admitted save, e.call = .logout token admitted save → e.reply = .loggedOut (.ok ()) →
      (∀ e' ∈ later, ∀ drawn ∈ e'.call.tokens,
        tokenHash C (Base64.urlSafeNoPad drawn.toList) ≠ tokenHash C token) →
      ∀ e' ∈ later, e'.call.token = some token → ¬ e'.reply.Knows) ∧
    ∀ a, e.reply = .access (.ok (some a)) → (∀ e' ∈ later, e'.sameStore) →
      ∃ s₁ key x, e.after.store = some s₁ ∧ s₁.state.sessions.get? key = some x ∧
        x.id = a.id ∧ x.cancel = a.cancelled ∧
        (∀ token touch now admitted prune save,
          e.call = .access token touch now admitted prune save → key = tokenHash C token) ∧
        ((∀ e' ∈ later, ∀ drawn ∈ e'.call.tokens,
            tokenHash C (Base64.urlSafeNoPad drawn.toList) ≠ key) →
          ∀ s, w.store = some s → Held key a.id a.cancelled s.state ∧
            (s.registryClosed = false → s.state.storageFailed = false →
              (a.cancelled ∈ s.state.cancelled ↔ ¬ ∃ y, s.state.sessions.get? key = some y ∧
                y.id = a.id ∧ y.cancel = a.cancelled))) := by
  refine ⟨fun s₀ key x hs₀ hopen₀ hx hremoves hspares => ?_,
    fun token id now admitted prune save own hcall hreply hdraws => ?_,
    fun token admitted save hcall hreply hdraws => ?_, fun a hreply hsame => ?_⟩
  · refine hrun.misses hserde hsplit (fun w hw => ?_)
      fun e' he => hspares e' (List.mem_cons_of_mem _ he)
    exact hw.lacks_removed hserde hs₀ hopen₀ hx hremoves (hspares e List.mem_cons_self)
  · obtain ⟨s, hs, hopen, hgone⟩ := hrun.revoked hsplit hcall hreply
    exact hrun.not_shown hserde hsplit id (fun _ => Run.nowhere hserde hs hopen hgone) hdraws
  · obtain ⟨s, hs, hopen, hgone⟩ := hrun.loggedOut hsplit hcall hreply
    exact hrun.not_known hserde hsplit token (fun _ => Run.nowhere hserde hs hopen hgone) hdraws
  · obtain ⟨s₁, key, x, csrf, hafter, hworks, hx, rfl, hkey⟩ := hrun.granted hsplit hreply
    exact ⟨s₁, key, x, hafter, hx, rfl, rfl, hkey, fun htokens s hs =>
      hrun.held_later hsplit hafter hworks hx hsame htokens hs⟩

end

/-! ### A logout between two requests

The session of the first login answers a request, is logged out, and is not found when its token is
sent again. -/

namespace Example

/-- The token is sent again after the logout. -/
def refused : Entry :=
  World.entry crypto serde noTime ⟨outDisk, some (out accessed)⟩ accessCall

theorem refused_run : Run crypto serde noTime disk (refused :: cancelHistory) refused.after :=
  cancel_run.step _ _ accessCall

/-- The session is not found again, and the request before the logout is cancelled. -/
theorem refused_final : ¬ refused.reply.Shows session.id ∧ ¬ refused.reply.Knows ∧
    granted.cancelled ∈ (out accessed).state.cancelled := by
  have hout : refused :: cancelHistory = [refused] ++ _ :: _ := rfl
  have haccess : cancelHistory = [_] ++ _ :: firstHistory := rfl
  have hspares : ∀ key id, accessCall.Spares crypto key id ∧ logoutCall.Spares crypto key id :=
    fun key id => ⟨⟨fun _ h => (by cases h), fun _ h => (by cases h)⟩,
      ⟨fun _ h => (by cases h), fun _ h => (by cases h)⟩⟩
  obtain ⟨hshown, hknown⟩ := (revocation_final reads_rows refused_run hout).1 accessed
    (tokenHash crypto (token 1)) session rfl accessed_holds.notFailed accessed_holds.stored
    (.after _ rfl accessed_holds.notFailed (out_gone accessed))
    (by
      intro e he
      rcases List.mem_cons.mp he with rfl | he
      · exact (hspares _ _).2
      · rw [List.mem_singleton.mp he]
        exact (hspares _ _).1)
    refused List.mem_cons_self
  refine ⟨hshown, hknown (token 1) rfl rfl, ?_⟩
  obtain ⟨s₁, key, x, -, -, -, -, hkey, hheld⟩ :=
    (revocation_final reads_rows cancel_run haccess).2.2.2 granted rfl (by
      intro e he
      rw [List.mem_singleton.mp he]
      exact fun _ _ h => (by cases h))
  obtain rfl := hkey _ _ _ _ _ _ rfl
  refine ((hheld ?_ _ rfl).2 rfl accessed_holds.notFailed).mpr ?_
  · intro e he drawn hdrawn
    rw [List.mem_singleton.mp he] at hdrawn
    cases hdrawn
  · rintro ⟨y, hy, -⟩
    rw [out_gone] at hy
    cases hy

end Example

end Hmux.Auth
