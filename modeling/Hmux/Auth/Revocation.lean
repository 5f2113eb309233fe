import Hmux.Auth.Sessions

namespace Hmux.Auth

open Lib

/-!
# Sessions that are gone

A session that is gone from a store that works is gone for good, whichever call removed it: it is
not in the session file either, so that no later start brings it back, and only a login that draws
its token and its id again would make one like it.

* `Move.lacks`, `World.Lacks.step` — no move and no start adds a session but one that was drawn;
* `Covered`, `Run.covered` — what the session file has is in memory;
* `removed_for_good` — a session that is removed is never known again;
* `revoked_for_good` — the answers `Ok` of `revoke` and `logout` are final.

The proof is about a kind of logins, given by their keys and ids, and about the places where such a
login could be: in memory and in the session file.  Nothing but a login puts one there, and a start
only reads what the file has.
-/

/-- A session file that the gateway wrote is read as the rows that were written. -/
def ReadsRows (S : Serde) : Prop :=
  ∀ rows file, parseSessionFile S
      (bytes (PersistedSessionFile.goJson ⟨sessionFileVersion, some rows⟩)) = .ok file →
    file.sessions.getD [] = rows

/-- A row of the session file. -/
def Disk.Row (S : Serde) (d : Disk) (row : PersistedSession) : Prop :=
  ∃ raw file, d.sessions = some raw ∧ parseSessionFile S raw = .ok file ∧
    row ∈ file.sessions.getD []

variable {C : Crypto} {S : Serde} {parseTime : String → Option ℤ}
  {tokens ids : List (Vector UInt8 32)} {t t' : Tx}

/-- The rows of a file that was written are the sessions. -/
theorem Disk.Saves.row (hserde : ReadsRows S) {d d' : Disk} {next : Table String Session}
    (h : d.Saves next d') {row : PersistedSession} (hrow : d'.Row S row) :
    ∃ key x, next.get? key = some x ∧ row = x.persisted key := by
  obtain ⟨raw, file, hraw, hparse, hmem⟩ := hrow
  rw [h.1] at hraw
  have htext : raw = sessionText next := (Option.some.inj hraw).symm
  rw [htext] at hparse
  rw [hserde _ _ hparse] at hmem
  obtain ⟨⟨key, x⟩, he, rfl⟩ := List.mem_map.mp (List.mem_mergeSort.mp hmem)
  exact ⟨key, x, Table.mem_entries.mp he, rfl⟩

/-- The credential files are other files. -/
theorem Disk.row_setCredentials {d : Disk} {path : Option String} {c : Credentials}
    {row : PersistedSession} : (d.setCredentials path c).Row S row ↔ d.Row S row := by
  cases path <;> exact Iff.rfl

/-! ### What moves do to sessions

A session that is there after a move was there before, up to its times, or was drawn by a login. -/

/-- A session was there before, up to its times and its fingerprint. -/
def Remains (sessions : Table String Session) (key : String) (x : Session) : Prop :=
  ∃ y, sessions.get? key = some y ∧ y.id = x.id ∧ y.cancel = x.cancel

/-- A session is one that a login may make of these bytes. -/
def Drawn (C : Crypto) (tokens ids : List (Vector UInt8 32)) (key id : String) : Prop :=
  ∃ token ∈ tokens, ∃ drawn ∈ ids, key = tokenHash C (Base64.urlSafeNoPad token.toList) ∧
    id = Base64.urlSafeNoPad drawn.toList

/-- A session that is there after a change was there before it. -/
theorem remains_modify {sessions : Table String Session} {key k : String} {x : Session}
    {f : Session → Session} (h : (sessions.modify key f).get? k = some x)
    (hf : ∀ y, (f y).id = y.id ∧ (f y).cancel = y.cancel) : Remains sessions k x := by
  rw [Table.get?_modify] at h
  split at h
  · obtain ⟨y, hy, rfl⟩ := Option.map_eq_some_iff.mp h
    exact ⟨y, hy, (hf y).1.symm, (hf y).2.symm⟩
  · exact ⟨x, h, rfl, rfl⟩

/-- The sessions that take the place of others were there before, but for the one of a login. -/
theorem Next.remains {s : State} {next : Table String Session} {handles : ℕ}
    (h : Next C tokens ids s next handles) : ∃ k, ∀ key x, next.get? key = some x →
      Remains s.sessions key x ∨ (key = k ∧ Drawn C tokens ids key x.id ∧ x.cancel = s.handles ∧
        handles = s.handles + 1) := by
  cases h with
  | retain p => exact ⟨"", fun key x hx => .inl ⟨x, (Table.get?_retain.mp hx).1, rfl, rfl⟩⟩
  | refresh k now y =>
    exact ⟨"", fun key x hx => .inl (remains_modify hx fun _ => ⟨rfl, rfl⟩)⟩
  | add p account pick token id htoken hid =>
    refine ⟨tokenHash C (Base64.urlSafeNoPad token.toList), fun key x hx => ?_⟩
    rw [Table.get?_insert] at hx
    split at hx
    · next hkey =>
      cases hx
      exact .inr ⟨hkey, ⟨token, htoken, id, hid, hkey, rfl⟩, rfl, rfl⟩
    · exact .inl ⟨x, makeRoom_get? hx, rfl, rfl⟩

/-- So were the sessions after a change of the switch. -/
theorem changedSessions_remains {s : State} {p : PendingChange} {account : Account} {key : String}
    {x : Session} (hx : (changedSessions C s p account).get? key = some x) :
    Remains s.sessions key x := by
  obtain ⟨y, hy, hid, hcancel⟩ := remains_modify hx fun _ => ⟨rfl, rfl⟩
  exact ⟨y, (Table.get?_retain.mp hy).1, hid, hcancel⟩

/-! ### A login that is nowhere

If none is anywhere and none is drawn, none is anywhere after the move. -/

section

variable {P : String → String → Prop}

/-- No session of the state is such a login; `P` is about its key and its id. -/
def State.Lacks (P : String → String → Prop) (s : State) : Prop :=
  ∀ key x, s.sessions.get? key = some x → ¬ P key x.id

/-- No row of the session file is. -/
def Disk.Lacks (S : Serde) (P : String → String → Prop) (d : Disk) : Prop :=
  ∀ row, d.Row S row → ¬ P row.tokenHash row.id

/-- What remains of a state that lacks some sessions is none of them. -/
theorem State.Lacks.remains {s : State} (h : s.Lacks P) {key : String} {x : Session}
    (hx : Remains s.sessions key x) : ¬ P key x.id := by
  obtain ⟨y, hy, hid, -⟩ := hx
  rw [← hid]
  exact h key y hy

/-- Neither is one of the sessions that take their place. -/
theorem State.Lacks.next {s : State} (h : s.Lacks P) {next : Table String Session} {handles : ℕ}
    (hnext : Next C tokens ids s next handles)
    (hdraws : ∀ key id, Drawn C tokens ids key id → ¬ P key id) {key : String} {x : Session}
    (hx : next.get? key = some x) : ¬ P key x.id := by
  obtain ⟨k, hall⟩ := hnext.remains
  rcases hall key x hx with hold | ⟨-, hnew, -⟩
  · exact h.remains hold
  · exact hdraws key x.id hnew

/-- What is saved has none of the sessions that the table lacks. -/
theorem Disk.Saves.lacks (hserde : ReadsRows S) {d d' : Disk} {next : Table String Session}
    (h : d.Saves next d') (hnext : ∀ key x, next.get? key = some x → ¬ P key x.id) :
    d'.Lacks S P := by
  intro row hrow
  obtain ⟨key, x, hx, rfl⟩ := h.row hserde hrow
  exact hnext key x hx

/-- **One move** makes no such login, in memory or in the files, as long as none is drawn. -/
theorem Move.lacks (hserde : ReadsRows S) (hmove : Move C tokens ids t t')
    (hdraws : ∀ key id, Drawn C tokens ids key id → ¬ P key id) (hdisk : t.disk.Lacks S P)
    (hstate : t.state.storageFailed = false → t.state.Lacks P) :
    t'.disk.Lacks S P ∧ (t'.state.storageFailed = false → t'.state.Lacks P) := by
  cases hmove with
  | note attempts securityAttempts => exact ⟨hdisk, hstate⟩
  | touch key now x hopen =>
    refine ⟨hdisk, fun _ k y hy => (hstate hopen).remains ?_⟩
    exact remains_modify hy fun _ => ⟨rfl, rfl⟩
  | save next handles d hopen hnext hsaves =>
    have hlacks : ∀ key x, next.get? key = some x → ¬ P key x.id :=
      fun key x hx => (hstate hopen).next hnext hdraws hx
    exact ⟨hsaves.lacks hserde hlacks, fun _ => hlacks⟩
  | spend username account step hopen =>
    exact ⟨fun row hrow => hdisk row (Disk.row_setCredentials.mp hrow), fun _ => hstate hopen⟩
  | change p account d hopen hturns hsaves =>
    have hlacks : ∀ key x, (changedSessions C t.state p account).get? key = some x → ¬ P key x.id :=
      fun key x hx => (hstate hopen).remains (changedSessions_remains hx)
    exact ⟨hsaves.lacks hserde hlacks, fun _ => hlacks⟩
  | fail t' hopen hfallen =>
    refine ⟨?_, fun h => ?_⟩
    · cases hfallen with
      | still => exact hdisk
      | saved next handles d hnext hd =>
        rcases hd with rfl | hsaves
        · exact hdisk
        · exact hsaves.lacks hserde fun key x hx => (hstate hopen).next hnext hdraws hx
      | spent username account step =>
        exact fun row hrow => hdisk row (Disk.row_setCredentials.mp hrow)
      | changed p account accounts d hturns hd =>
        rcases hd with rfl | hsaves
        · exact fun row hrow => hdisk row (Disk.row_setCredentials.mp hrow)
        · exact hsaves.lacks hserde fun key x hx =>
            (hstate hopen).remains (changedSessions_remains hx)
    · rw [hfallen.failed] at h
      cases h

/-- **Run lemma** for the moves of a call: no session of the kind comes back. -/
theorem Moves.lacks (hserde : ReadsRows S) (hmoves : Moves C tokens ids t t')
    (hdraws : ∀ key id, Drawn C tokens ids key id → ¬ P key id) (hdisk : t.disk.Lacks S P)
    (hstate : t.state.storageFailed = false → t.state.Lacks P) :
    t'.disk.Lacks S P ∧ (t'.state.storageFailed = false → t'.state.Lacks P) := by
  induction hmoves with
  | refl => exact ⟨hdisk, hstate⟩
  | tail _ hmove ih => exact hmove.lacks hserde hdraws ih.1 ih.2

/-- Such a login is nowhere: not in the session file, and not in a store that works. -/
structure World.Lacks (S : Serde) (P : String → String → Prop) (w : World) : Prop where
  disk : w.disk.Lacks S P
  store : ∀ s, w.store = some s → s.state.storageFailed = false → s.state.Lacks P

/-- A start reads what is in the file. -/
theorem start_lacks {d : Disk} {now : ℤ} {accounts : Table String Account}
    {rows : List PersistedSession} {entries : List (String × Session)}
    (hreads : Reads C S parseTime d now accounts rows entries) (hdisk : d.Lacks S P) :
    (State.start accounts entries).Lacks P := by
  intro key x hx
  obtain ⟨row, hmem, cancel, hkey, hrow⟩ := loadSessions_mem hreads.sessions (Table.mem_ofList hx)
  obtain ⟨raw, file, hraw, hparse, rfl⟩ := hreads.text
  have hlacks := hdisk row ⟨raw, file, hraw, hparse, (List.mem_filter.mp hmem).1⟩
  rw [← hkey, ← (fromRow_some hrow).1] at hlacks
  exact hlacks

/-- A start reads none that the file lacks. -/
theorem Loads.lacks (hserde : ReadsRows S) {d d' : Disk} {now : ℤ} {result : Except String State}
    (h : Loads C S parseTime d now result d') (hdisk : d.Lacks S P) :
    d'.Lacks S P ∧ ∀ state, result = .ok state → state.Lacks P := by
  cases h with
  | refused message => exact ⟨hdisk, fun _ h => by cases h⟩
  | fresh accounts _ _ =>
    refine ⟨hdisk, fun state h => ?_⟩
    cases h
    intro key x hx
    cases hx
  | clean accounts rows entries hreads _ =>
    refine ⟨hdisk, fun state h => ?_⟩
    cases h
    exact start_lacks hreads hdisk
  | cleaned accounts rows entries d' hreads hsaves =>
    have hstart := start_lacks hreads hdisk
    refine ⟨hsaves.lacks hserde hstart, fun state h => ?_⟩
    cases h
    exact hstart
  | failed message accounts rows entries d' hreads hsaves =>
    exact ⟨hsaves.lacks hserde (start_lacks hreads hdisk), fun _ h => by cases h⟩

/-- **One step of a run** makes no such login. -/
theorem World.Lacks.step (hserde : ReadsRows S) {w w' : World} {call : Call} {reply : Reply}
    (h : w.Lacks S P) (hstep : Steps C S parseTime w call reply w')
    (hdraws : ∀ key id, Drawn C call.tokens call.ids key id → ¬ P key id) : w'.Lacks S P := by
  cases hstep with
  | started now save state d hload =>
    obtain ⟨hdisk, hstate⟩ := (loadState_cases hload).lacks hserde h.disk
    refine ⟨hdisk, fun s hs _ => ?_⟩
    cases hs
    exact hstate state rfl
  | refused now save message d hload =>
    exact ⟨((loadState_cases hload).lacks hserde h.disk).1, fun s hs => by cases hs⟩
  | stopped => exact h
  | called call s s' reply t' hstore _ _ hmoves hfollows _ =>
    obtain ⟨hdisk, hstate⟩ := Moves.lacks hserde hmoves hdraws h.disk (h.store s hstore)
    refine ⟨hdisk, fun s'' hs hopen => ?_⟩
    cases hs
    obtain ⟨extra, heq, -⟩ := hfollows.cancelled
    rw [heq] at hopen ⊢
    exact hstate hopen

end

/-! ### What the session file has

The file never has more sessions than the memory of a store that works: so a session that is gone
from memory is gone from the file. -/

/-- Every row of the session file is a session of the state. -/
def Covered (S : Serde) (s : State) (d : Disk) : Prop :=
  ∀ row, d.Row S row → ∃ x, s.sessions.get? row.tokenHash = some x ∧ x.id = row.id

/-- What is saved covers the table that was saved. -/
theorem Disk.Saves.covered (hserde : ReadsRows S) {d d' : Disk} {next : Table String Session}
    (h : d.Saves next d') {s : State} (hs : s.sessions = next) : Covered S s d' := by
  intro row hrow
  obtain ⟨key, x, hx, rfl⟩ := h.row hserde hrow
  rw [hs]
  exact ⟨x, hx, rfl⟩

/-- While the storage works the file covers the table. -/
theorem Move.covered (hserde : ReadsRows S) (hmove : Move C tokens ids t t')
    (h : t.state.storageFailed = false → Covered S t.state t.disk)
    (hopen : t'.state.storageFailed = false) : Covered S t'.state t'.disk := by
  cases hmove with
  | note attempts securityAttempts => exact h hopen
  | touch key now x hbefore =>
    intro row hrow
    obtain ⟨y, hy, hid⟩ := h hbefore row hrow
    show ∃ z, (t.state.sessions.modify key _).get? row.tokenHash = some z ∧ _
    rw [Table.get?_modify, hy]
    split
    · exact ⟨_, rfl, hid⟩
    · exact ⟨y, rfl, hid⟩
  | save next handles d hbefore hnext hsaves => exact hsaves.covered hserde rfl
  | spend username account step hbefore =>
    exact fun row hrow => h hbefore row (Disk.row_setCredentials.mp hrow)
  | change p account d hbefore hturns hsaves => exact hsaves.covered hserde rfl
  | fail t' _ hfallen =>
    rw [hfallen.failed] at hopen
    cases hopen

/-- The file still covers the table after all moves of a call. -/
theorem Moves.covered (hserde : ReadsRows S) (hmoves : Moves C tokens ids t t')
    (h : t.state.storageFailed = false → Covered S t.state t.disk) :
    t'.state.storageFailed = false → Covered S t'.state t'.disk := by
  induction hmoves with
  | refl => exact h
  | tail _ hmove ih => exact fun hopen => hmove.covered hserde ih hopen

/-- What a start keeps of the rows has keys of its own. -/
theorem entries_nodup {now : ℤ} {accounts : Table String Account} {rows : List PersistedSession}
    {entries : List (String × Session)}
    (hrows : RowsValid C parseTime now (owners accounts) ⟨[], [], [], false⟩ rows)
    (hentries : loadSessions parseTime (keptRows C parseTime now (owners accounts) rows) 0
      = some entries) : (entries.map Prod.fst).Nodup := by
  have hkeys : entries.map Prod.fst =
      (keptRows C parseTime now (owners accounts) rows).map PersistedSession.tokenHash :=
    loadSessions_map (fun _ _ _ _ => rfl) hentries
  have htokens := hrows.tokens
  have hcomp : PersistedSession.token =
      (fun key => (Base64.urlSafeBytes key).getD []) ∘ PersistedSession.tokenHash := rfl
  rw [List.nil_append, hcomp, ← List.map_map] at htokens
  rw [hkeys]
  exact List.Nodup.of_map _ htokens

/-- The file covers the table after a start. -/
theorem Loads.covered (hserde : ReadsRows S) {d d' : Disk} {now : ℤ} {state : State}
    (h : Loads C S parseTime d now (.ok state) d') : Covered S state d' := by
  cases h with
  | fresh accounts _ hnone =>
    rintro row ⟨raw, file, hraw, -⟩
    rw [hnone] at hraw
    cases hraw
  | clean accounts rows entries hreads hall =>
    rintro row ⟨raw, file, hraw, hparse, hmem⟩
    obtain ⟨raw', file', hraw', hparse', hrows⟩ := hreads.text
    rw [hraw] at hraw'
    obtain rfl := Option.some.inj hraw'
    rw [hparse] at hparse'
    obtain rfl := Except.ok.inj hparse'
    rw [hrows] at hmem
    have hkept : row ∈ keptRows C parseTime now (owners accounts) rows :=
      List.mem_filter.mpr ⟨hmem, hall row hmem⟩
    have hpairs : entries.map (fun e => (e.1, e.2.id)) =
        (keptRows C parseTime now (owners accounts) rows).map fun row => (row.tokenHash, row.id) :=
      loadSessions_map (fun row cancel x hx => by rw [(fromRow_some hx).1]) hreads.sessions
    have hpair := List.mem_map_of_mem (f := fun row : PersistedSession =>
      (row.tokenHash, row.id)) hkept
    rw [← hpairs] at hpair
    obtain ⟨⟨key, x⟩, he, heq⟩ := List.mem_map.mp hpair
    obtain ⟨hkey, hid⟩ := Prod.mk.inj heq
    dsimp only at hkey hid
    rw [hkey] at he
    exact ⟨x, Table.get?_ofList (entries_nodup hreads.valid hreads.sessions) he, hid⟩
  | cleaned accounts rows entries d' hreads hsaves => exact hsaves.covered hserde rfl

/-- A store that works has what its session file has. -/
def World.Covered (S : Serde) (w : World) : Prop :=
  ∀ s, w.store = some s → s.state.storageFailed = false → Auth.Covered S s.state w.disk

/-- **Step lemma.** The file covers the table after every call. -/
theorem World.Covered.step (hserde : ReadsRows S) {w w' : World} {call : Call} {reply : Reply}
    (hstep : Steps C S parseTime w call reply w') (h : w.Covered S) : w'.Covered S := by
  intro s hs hopen
  cases hstep with
  | started now save state d hload =>
    cases hs
    exact (loadState_cases hload).covered hserde
  | refused => cases hs
  | stopped => exact h s hs hopen
  | called call s₀ s' reply t' hstore _ _ hmoves hfollows _ =>
    cases hs
    obtain ⟨extra, hstate, -⟩ := hfollows.cancelled
    rw [hstate] at hopen ⊢
    exact Moves.covered hserde hmoves (h s₀ hstore) hopen

section

variable {disk : Disk} {history : List Entry} {w : World} {P : String → String → Prop}

/-- The file covers the table at the end of every run. -/
theorem Run.covered (hserde : ReadsRows S) (hrun : Run C S parseTime disk history w) :
    w.Covered S :=
  hrun.invariant (fun s hs => by cases hs) fun hstep h => h.step hserde hstep

/-! ### Gone for good -/

/-- A login that a store that works does not have is nowhere. -/
theorem Run.lacks_of_gone (hserde : ReadsRows S) (hrun : Run C S parseTime disk history w)
    {s : Store}
    (hs : w.store = some s) (hopen : s.state.storageFailed = false) (hgone : s.state.Lacks P) :
    w.Lacks S P where
  disk row hrow := by
    obtain ⟨x, hx, hid⟩ := hrun.covered hserde s hs hopen row hrow
    rw [← hid]
    exact hgone _ x hx
  store s' hs' _ := by
    rw [hs] at hs'
    cases hs'
    exact hgone

/-- **It stays nowhere** as long as no login draws it. -/
theorem Run.lacks (hserde : ReadsRows S) (hrun : Run C S parseTime disk history w)
    {later base : List Entry} (hsplit : history = later ++ base)
    (hbase : ∀ w, Run C S parseTime disk base w → w.Lacks S P)
    (hdraws : ∀ e ∈ later, ∀ key id, Drawn C e.call.tokens e.call.ids key id → ¬ P key id) :
    w.Lacks S P ∧ ∀ e ∈ later, e.before.Lacks S P ∧ e.after.Lacks S P := by
  induction hrun generalizing later with
  | new =>
    obtain ⟨rfl, rfl⟩ := List.append_eq_nil_iff.mp hsplit.symm
    exact ⟨hbase _ .new, fun e he => by cases he⟩
  | step w history call hrun ih =>
    cases later with
    | nil =>
      rw [List.nil_append] at hsplit
      refine ⟨hbase _ ?_, fun e he => by cases he⟩
      rw [← hsplit]
      exact .step w history call hrun
    | cons e later =>
      obtain ⟨rfl, hrest⟩ := List.cons.inj hsplit
      obtain ⟨hw, hlater⟩ := ih hrest fun e he => hdraws e (List.mem_cons_of_mem _ he)
      have hafter : (w.step C S parseTime call).2.Lacks S P :=
        hw.step hserde (World.step_cases w call) (hdraws _ List.mem_cons_self)
      refine ⟨hafter, fun e he => ?_⟩
      rcases List.mem_cons.mp he with rfl | he
      · exact ⟨hw, hafter⟩
      · exact hlater e he

/-! ### What answers say

A session is shown by its id and used by its token; either is an answer about a stored session. -/

/-- A session is shown by its id. -/
def Reply.Shows (id : String) : Reply → Prop
  | .access (.ok (some a)) => a.id = id
  | .sessions (.ok (some infos)) => ∃ info ∈ infos, info.id = id
  | _ => False

/-- A token is accepted. -/
def Reply.Knows : Reply → Prop
  | .access (.ok (some _)) | .identity (.ok (some _)) | .sessions (.ok (some _))
  | .totp (.ok (some _)) | .revoked (.ok _) | .waiting => True
  | _ => False

/-- The token that a call comes with. -/
def Call.token : Call → Option String
  | .access token .. | .identity token .. | .listSessions token .. | .totpEnabled token ..
  | .revoke token .. => some token
  | .setTotp request .. => some request.token
  | _ => none

/-- A state that a call without random bytes passes through. -/
structure Passes (C : Crypto) (s : Store) (disk : Disk) (t : Tx) : Prop where
  moves : Moves C [] [] ⟨s.state, disk⟩ t
  notFailed : t.state.storageFailed = false

/-- The sessions that are listed are those of the table. -/
theorem listSessions_passes {s : Store} {disk : Disk} {token : String} {now : ℤ} {prune : Write}
    {infos : List SessionInfo}
    (h : (listSessions C ⟨s.state, disk⟩ token now prune).1 = .ok (some infos)) :
    ∃ t, Passes C s disk t ∧ (∃ x, t.state.sessions.get? (tokenHash C token) = some x) ∧
      ∀ info ∈ infos, ∃ key x, t.state.sessions.get? key = some x ∧ x.id = info.id := by
  unfold listSessions at h
  rcases prune_cases (C := C) ⟨s.state, disk⟩ now prune with
    ⟨t, heq, hmoves, hpruned⟩ | ⟨t, heq, -, -⟩
  · rw [heq] at h
    obtain ⟨x, hx, rfl⟩ := Option.map_eq_some_iff.mp (Except.ok.inj h)
    refine ⟨t, ⟨hmoves, hpruned.notFailed⟩, ⟨x, hx⟩, fun info hinfo => ?_⟩
    obtain ⟨e, he, rfl⟩ := List.mem_map.mp (List.mem_mergeSort.mp hinfo)
    exact ⟨e.1, e.2, Table.mem_entries.mp (List.mem_filter.mp he).1, rfl⟩
  · rw [heq] at h
    cases h

/-- A session that was revoked is the only one with its id. -/
theorem revoke_ok {s : Store} {disk : Disk} {token id : String} {now : ℤ} {prune save : Write}
    {own : Bool} (h : (revoke C ⟨s.state, disk⟩ token id now prune save).1 = .ok own) :
    ∃ t, Passes C s disk t ∧ (∃ x, t.state.sessions.get? (tokenHash C token) = some x) ∧
      ∃ target y, t.state.sessions.get? target = some y ∧ y.id = id ∧
        (revoke C ⟨s.state, disk⟩ token id now prune save).2.state.storageFailed = false ∧
        (revoke C ⟨s.state, disk⟩ token id now prune save).2.state.sessions =
          t.state.sessions.erase target := by
  unfold revoke at h ⊢
  rcases prune_cases (C := C) ⟨s.state, disk⟩ now prune with
    ⟨t, heq, hmoves, hpruned⟩ | ⟨t, heq, -, -⟩
  · rw [heq] at h ⊢
    dsimp only at h ⊢
    split at h
    · cases h
    · next hvalid =>
      rw [if_neg hvalid]
      cases hget : t.state.sessions.get? (tokenHash C token) with
      | none =>
        rw [hget] at h
        cases h
      | some current =>
        rw [hget] at h
        dsimp only at h ⊢
        split at h
        · cases h
        -- the entry that has the id
        · next target y hfind =>
          have hy := Table.mem_entries.mp (List.mem_of_find?_eq_some hfind)
          have hid := List.find?_some hfind
          simp only [Bool.and_eq_true, beq_iff_eq] at hid
          refine ⟨t, ⟨hmoves, hpruned.notFailed⟩, ⟨current, hget⟩, target, y, hy, hid.1.1, ?_⟩
          unfold removeSession at h ⊢
          dsimp only at h ⊢
          -- it is gone, and written so, or the store has fallen
          rcases saveSessions_cases t (t.state.sessions.erase target) save with
            ⟨d, hsave, -⟩ | ⟨d, hsave, -⟩
          · rw [hsave]
            exact ⟨hpruned.notFailed, rfl⟩
          · rw [hsave] at h
            cases h
  · rw [heq] at h
    cases h

/-- **What is shown is stored.** -/
theorem Store.step_shows {s : Store} {disk : Disk} {call : Call} {id : String}
    (h : (s.step C disk call).1.Shows id) :
    ∃ t, Passes C s disk t ∧ ∃ key x, t.state.sessions.get? key = some x ∧ x.id = id := by
  cases call with
  | access token touch now admitted prune save =>
    obtain ⟨hmoves, hstored⟩ : Moves C [] [] ⟨s.state, disk⟩ _ ∧ _ :=
      access_moves ⟨s.state, disk⟩ token touch now prune save
    obtain ⟨result, s', t', heq, -, -, -, hvalue⟩ := ask_cases s disk admitted
      (fun t => access C t token touch now prune save) .access hmoves
    have hask : Reply.Shows id (s.ask disk admitted
        (fun t => access C t token touch now prune save) .access).1 := h
    -- only an access of a session shows one
    rw [heq] at hask
    rcases result with _ | (_ | a)
    · exact False.elim hask
    · exact False.elim hask
    · obtain ⟨-, hwork⟩ := hvalue _ rfl
      obtain ⟨hopen, x, csrf, hx, rfl⟩ := hstored a hwork
      exact ⟨_, ⟨hmoves, hopen⟩, _, x, hx, hask⟩
  | listSessions token now admitted prune =>
    have hmoves : Moves C [] [] ⟨s.state, disk⟩ _ :=
      listSessions_moves ⟨s.state, disk⟩ token now prune
    obtain ⟨result, s', t', heq, -, -, -, hvalue⟩ := ask_cases s disk admitted
      (fun t => listSessions C t token now prune) .sessions hmoves
    have hask : Reply.Shows id (s.ask disk admitted
        (fun t => listSessions C t token now prune) .sessions).1 := h
    rw [heq] at hask
    rcases result with _ | (_ | infos)
    · exact False.elim hask
    · exact False.elim hask
    · obtain ⟨info, hinfo, hid⟩ := hask
      obtain ⟨t, hpasses, -, hall⟩ := listSessions_passes (hvalue _ rfl).2
      obtain ⟨key, x, hx, hsame⟩ := hall info hinfo
      exact ⟨t, hpasses, key, x, hx, hsame.trans hid⟩
  | pushLogin id' now free =>
    -- a push login looks its session up by the id
    have hpush : Reply.Shows id (.access (s.pushLogin C id' now free)) := h
    unfold Store.pushLogin pushLoginById at hpush
    split at hpush
    · exact False.elim hpush
    split at hpush
    · exact False.elim hpush
    split at hpush
    · exact False.elim hpush
    · next hopen =>
      split at hpush
      · exact False.elim hpush
      · next x hfind =>
        split at hpush
        · exact False.elim hpush
        · split at hpush
          · exact False.elim hpush
          · obtain ⟨key, hx⟩ := Table.mem_values.mp (List.mem_of_find?_eq_some hfind)
            rw [Bool.not_eq_true] at hopen
            exact ⟨_, ⟨.refl, hopen⟩, key, x, hx, hpush⟩
  -- the other calls show no session
  | login request admitted =>
    have h : Reply.Shows id (s.login C disk request admitted).1 := h
    unfold Store.login at h
    split at h
    · exact False.elim h
    · split at h <;> exact False.elim h
  | finishLogin p kdf admitted env =>
    have h : Reply.Shows id (s.finishLogin C disk p kdf admitted env).1 := h
    unfold Store.finishLogin at h
    split at h
    · exact False.elim h
    · dsimp only at h
      split at h
      · exact False.elim h
      · exact False.elim h
      · split at h
        · exact False.elim h
        · split at h <;> exact False.elim h
  | setTotp request admitted prune =>
    have h : Reply.Shows id (s.setTotp C disk request admitted prune).1 := h
    unfold Store.setTotp at h
    split at h
    · exact False.elim h
    · split at h <;> exact False.elim h
  | finishSetTotp p kdf admitted env =>
    have h : Reply.Shows id (s.finishSetTotp C disk p kdf admitted env).1 := h
    unfold Store.finishSetTotp at h
    split at h
    · exact False.elim h
    · dsimp only at h
      split at h
      · exact False.elim h
      · exact False.elim h
      · split at h
        · exact False.elim h
        · split at h <;> exact False.elim h
  | identity => exact False.elim h
  | totpEnabled => exact False.elim h
  | revoke => exact False.elim h
  | logout => exact False.elim h
  | closeConnections => exact False.elim h
  | shutdown => exact False.elim h
  | restart => exact False.elim h

/-- **A token that is accepted** is that of a stored session. -/
theorem Store.step_knows {s : Store} {disk : Disk} {call : Call} {token : String}
    (htoken : call.token = some token) (h : (s.step C disk call).1.Knows) :
    ∃ t, Passes C s disk t ∧ ∃ x, t.state.sessions.get? (tokenHash C token) = some x := by
  cases call with
  | access token' touch now admitted prune save =>
    cases htoken
    obtain ⟨hmoves, hstored⟩ : Moves C [] [] ⟨s.state, disk⟩ _ ∧ _ :=
      access_moves ⟨s.state, disk⟩ token touch now prune save
    obtain ⟨result, s', t', heq, -, -, -, hvalue⟩ := ask_cases s disk admitted
      (fun t => access C t token touch now prune save) .access hmoves
    have hask : Reply.Knows (s.ask disk admitted
        (fun t => access C t token touch now prune save) .access).1 := h
    rw [heq] at hask
    rcases result with _ | (_ | a)
    · exact False.elim hask
    · exact False.elim hask
    · obtain ⟨hopen, x, csrf, hx, -⟩ := hstored a (hvalue _ rfl).2
      exact ⟨_, ⟨hmoves, hopen⟩, x, hx⟩
  | identity token' now admitted prune =>
    cases htoken
    obtain ⟨hmoves, hstored⟩ : Moves C [] [] ⟨s.state, disk⟩ _ ∧ _ :=
      identity_moves ⟨s.state, disk⟩ token now prune
    obtain ⟨result, s', t', heq, -, -, -, hvalue⟩ := ask_cases s disk admitted
      (fun t => identity C t token now prune) .identity hmoves
    have hask : Reply.Knows (s.ask disk admitted
        (fun t => identity C t token now prune) .identity).1 := h
    rw [heq] at hask
    rcases result with _ | (_ | a)
    · exact False.elim hask
    · exact False.elim hask
    · obtain ⟨hopen, x, hx⟩ := hstored a (hvalue _ rfl).2
      exact ⟨_, ⟨hmoves, hopen⟩, x, hx⟩
  | listSessions token' now admitted prune =>
    cases htoken
    have hmoves : Moves C [] [] ⟨s.state, disk⟩ _ :=
      listSessions_moves ⟨s.state, disk⟩ token now prune
    obtain ⟨result, s', t', heq, -, -, -, hvalue⟩ := ask_cases s disk admitted
      (fun t => listSessions C t token now prune) .sessions hmoves
    have hask : Reply.Knows (s.ask disk admitted
        (fun t => listSessions C t token now prune) .sessions).1 := h
    rw [heq] at hask
    rcases result with _ | (_ | infos)
    · exact False.elim hask
    · exact False.elim hask
    · obtain ⟨t, hpasses, hstored, -⟩ := listSessions_passes (hvalue _ rfl).2
      exact ⟨t, hpasses, hstored⟩
  -- the setting is only told after a session was found
  | totpEnabled token' now admitted prune =>
    cases htoken
    have hmoves : Moves C [] [] ⟨s.state, disk⟩ _ :=
      totpEnabled_moves ⟨s.state, disk⟩ token now prune
    obtain ⟨result, s', t', heq, -, -, -, hvalue⟩ := ask_cases s disk admitted
      (fun t => totpEnabled C t token now prune) .totp hmoves
    have hask : Reply.Knows (s.ask disk admitted
        (fun t => totpEnabled C t token now prune) .totp).1 := h
    rw [heq] at hask
    rcases result with _ | (_ | enabled)
    · exact False.elim hask
    · exact False.elim hask
    · have hwork := (hvalue _ rfl).2
      unfold totpEnabled at hwork
      rcases prune_cases (C := C) ⟨s.state, disk⟩ now prune with
        ⟨t, hprune, hmoves', hpruned⟩ | ⟨t, hprune, -, -⟩
      · rw [hprune] at hwork
        obtain ⟨x, hx, -⟩ := Option.bind_eq_some_iff.mp (Except.ok.inj hwork)
        exact ⟨t, ⟨hmoves', hpruned.notFailed⟩, x, hx⟩
      · rw [hprune] at hwork
        cases hwork
  | revoke token' id now admitted prune save =>
    cases htoken
    have hmoves : Moves C [] [] ⟨s.state, disk⟩ _ :=
      revoke_moves ⟨s.state, disk⟩ token id now prune save
    obtain ⟨result, s', t', heq, -, -, -, hvalue⟩ := ask_cases s disk admitted
      (fun t => revoke C t token id now prune save) .revoked hmoves
    have hask : Reply.Knows (s.ask disk admitted
        (fun t => revoke C t token id now prune save) .revoked).1 := h
    rw [heq] at hask
    rcases result with _ | own
    · exact False.elim hask
    · obtain ⟨t, hpasses, ⟨x, hx⟩, -⟩ := revoke_ok (hvalue _ rfl).2
      exact ⟨t, hpasses, x, hx⟩
  | setTotp request admitted prune =>
    cases htoken
    have h : Reply.Knows (s.setTotp C disk request admitted prune).1 := h
    have hmoves : Moves C [] [] ⟨s.state, disk⟩ (startChange C ⟨s.state, disk⟩ request prune).2 :=
      (startChange_moves ⟨s.state, disk⟩ request prune).1
    unfold Store.setTotp at h
    split at h
    · exact False.elim h
    · obtain ⟨result, s', t', heq, -, -, -, -, -, hvalue⟩ := transact_cases s disk admitted
        (total fun t => startChange C t request prune) hmoves (fun h => (nomatch h))
      rw [heq] at h
      rcases result with _ | (_ | p)
      · exact False.elim h
      · exact False.elim h
      -- a change starts with the session of its token
      · have hwork : (startChange C ⟨s.state, disk⟩ request prune).1 = .ok p :=
          Option.some.inj (hvalue _ rfl).2
        unfold startChange at hwork
        rcases prune_cases (C := C) ⟨s.state, disk⟩ request.now prune with
          ⟨t, hprune, hmoves', hpruned⟩ | ⟨t, hprune, -, -⟩
        · rw [hprune] at hwork
          dsimp only at hwork
          split at hwork
          · cases hwork
          · next x hx => exact ⟨t, ⟨hmoves', hpruned.notFailed⟩, x, hx⟩
        · rw [hprune] at hwork
          cases hwork
  | _ => cases htoken

/-! ### Gone for good -/

/-- What answers a call: nothing, a start or the store. -/
theorem Steps.reply {w w' : World} {call : Call} {reply : Reply}
    (h : Steps C S parseTime w call reply w') :
    (reply = .none ∨ ∃ result, reply = .started result) ∨
      ∃ s, w.store = some s ∧ reply = (s.step C w.disk call).1 := by
  cases h with
  | started => exact .inl (.inr ⟨_, rfl⟩)
  | refused => exact .inl (.inr ⟨_, rfl⟩)
  | stopped _ hstore =>
    cases call with
    | restart now save => exact .inl (.inl rfl)
    | _ => exact .inl (.inl rfl)
  | called call s s' reply t' hstore _ hstep _ _ _ => exact .inr ⟨s, hstore, by rw [hstep]⟩

/-- A login that is gone from a store that works is nowhere after the call. -/
theorem Run.nowhere (hserde : ReadsRows S) {earlier : List Entry} {e : Entry} {s : Store}
    (hs : e.after.store = some s) (hopen : s.state.storageFailed = false) (hgone : s.state.Lacks P)
    {w : World} (hrun : Run C S parseTime disk (e :: earlier) w) : w.Lacks S P := by
  cases hrun with
  | step w₀ _ call hrun₀ =>
    have hafter := Run.step w₀ earlier call hrun₀
    exact hafter.lacks_of_gone hserde hs hopen hgone

/-- **A login that is nowhere** is in no state that a later call passes through. -/
theorem Run.never (hserde : ReadsRows S) (hrun : Run C S parseTime disk history w)
    {later earlier : List Entry} {e : Entry} (hsplit : history = later ++ e :: earlier)
    (hbase : ∀ w, Run C S parseTime disk (e :: earlier) w → w.Lacks S P)
    (hdraws : ∀ e' ∈ later, ∀ key id, Drawn C e'.call.tokens e'.call.ids key id → ¬ P key id)
    {e' : Entry} (he : e' ∈ later) :
    (e'.reply = .none ∨ ∃ result, e'.reply = .started result) ∨
      ∃ s', e'.reply = (s'.step C e'.before.disk e'.call).1 ∧
        ∀ t, Passes C s' e'.before.disk t → t.state.Lacks P := by
  obtain ⟨-, hlater⟩ := hrun.lacks hserde hsplit hbase hdraws
  have hbefore := (hlater e' he).1
  have hmem : e' ∈ history := hsplit ▸ List.mem_append_left _ he
  obtain ⟨-, -, -, -, hentry⟩ := hrun.split hmem
  have hsteps : Steps C S parseTime e'.before e'.call e'.reply e'.after := by
    rw [hentry]
    exact World.step_cases _ _
  rcases hsteps.reply with hnone | ⟨s', hs', hreply⟩
  · exact .inl hnone
  · refine .inr ⟨s', hreply, fun t ht => ?_⟩
    have hnothing : ∀ key id, Drawn C [] [] key id → ¬ P key id := by
      rintro key id ⟨token, htoken, -⟩
      cases htoken
    exact (Moves.lacks hserde ht.moves hnothing hbefore.disk (hbefore.store s' hs')).2 ht.notFailed

/-- Once there is no session with this id, no later answer shows it. -/
theorem Run.not_shown (hserde : ReadsRows S) (hrun : Run C S parseTime disk history w)
    {later earlier : List Entry} {e : Entry} (hsplit : history = later ++ e :: earlier)
    (id : String)
    (hbase : ∀ w, Run C S parseTime disk (e :: earlier) w → w.Lacks S fun _ i => i = id)
    (hdraws : ∀ e' ∈ later, ∀ drawn ∈ e'.call.ids, Base64.urlSafeNoPad drawn.toList ≠ id) :
    ∀ e' ∈ later, ¬ e'.reply.Shows id := by
  intro e' he hshows
  have hdrawn : ∀ e' ∈ later, ∀ key drawn, Drawn C e'.call.tokens e'.call.ids key drawn →
      ¬ drawn = id := by
    rintro e' he key drawn ⟨-, -, bytes, hbytes, -, rfl⟩
    exact hdraws e' he bytes hbytes
  rcases hrun.never (P := fun _ i => i = id) hserde hsplit hbase hdrawn he with
    (hnone | ⟨result, hstart⟩) | ⟨s', hreply, hlacks⟩
  · rw [hnone] at hshows
    exact hshows
  · rw [hstart] at hshows
    exact hshows
  · rw [hreply] at hshows
    obtain ⟨t, hpasses, key, x, hx, hid⟩ := Store.step_shows hshows
    exact hlacks t hpasses key x hx hid

/-- Once there is no session of this token, no later call accepts it. -/
theorem Run.not_known (hserde : ReadsRows S) (hrun : Run C S parseTime disk history w)
    {later earlier : List Entry} {e : Entry} (hsplit : history = later ++ e :: earlier)
    (token : String) (hbase : ∀ w, Run C S parseTime disk (e :: earlier) w →
      w.Lacks S fun key _ => key = tokenHash C token)
    (hdraws : ∀ e' ∈ later, ∀ drawn ∈ e'.call.tokens,
      tokenHash C (Base64.urlSafeNoPad drawn.toList) ≠ tokenHash C token) :
    ∀ e' ∈ later, e'.call.token = some token → ¬ e'.reply.Knows := by
  intro e' he htoken hknows
  have hdrawn : ∀ e' ∈ later, ∀ key id, Drawn C e'.call.tokens e'.call.ids key id →
      ¬ key = tokenHash C token := by
    rintro e' he key id ⟨bytes, hbytes, -, -, rfl, -⟩
    exact hdraws e' he bytes hbytes
  rcases hrun.never hserde hsplit hbase hdrawn he with
    (hnone | ⟨result, hstart⟩) | ⟨s', hreply, hlacks⟩
  · rw [hnone] at hknows
    exact hknows
  · rw [hstart] at hknows
    exact hknows
  · rw [hreply] at hknows
    obtain ⟨t, hpasses, x, hx⟩ := Store.step_knows htoken hknows
    exact hlacks t hpasses _ x hx rfl

/-- **A session that is removed is removed for good.**  A call after which a store that works no
    longer has a session that it had before (it was revoked or logged out, it has expired, it made
    room for another login, the switch of its account was turned, or the gateway was started again)
    is the last one that knows it: no later answer shows the session and no later call accepts its
    token, whatever is called and however often the gateway is started again, unless a login draws
    its id or its token. -/
theorem removed_for_good (hserde : ReadsRows S) (hrun : Run C S parseTime disk history w)
    {later earlier : List Entry} {e : Entry} (hsplit : history = later ++ e :: earlier)
    {s₀ s : Store} (hs₀ : e.before.store = some s₀) (hopen₀ : s₀.state.storageFailed = false)
    (hs : e.after.store = some s) (hopen : s.state.storageFailed = false) {token : String}
    {x : Session} (hx : s₀.state.sessions.get? (tokenHash C token) = some x)
    (hgone : s.state.sessions.get? (tokenHash C token) = none)
    (hids : ∀ e' ∈ e :: later, ∀ drawn ∈ e'.call.ids, Base64.urlSafeNoPad drawn.toList ≠ x.id)
    (htokens : ∀ e' ∈ later, ∀ drawn ∈ e'.call.tokens,
      tokenHash C (Base64.urlSafeNoPad drawn.toList) ≠ tokenHash C token) :
    ∀ e' ∈ later, ¬ e'.reply.Shows x.id ∧ (e'.call.token = some token → ¬ e'.reply.Knows) := by
  -- no other session has the id, before the call or after it
  have hother : s₀.state.Lacks fun key id => id = x.id ∧ key ≠ tokenHash C token := by
    rintro key y hy ⟨hid, hkey⟩
    obtain ⟨hbefore, -⟩ := hrun.at_entry hsplit
    exact hkey ((hbefore.sound s₀ hs₀ hopen₀).ids key _ y x hy hx hid)
  obtain ⟨hbefore, hentry⟩ := hrun.at_entry hsplit
  have hsteps : Steps C S parseTime e.before e.call e.reply e.after := by
    rw [hentry]
    exact World.step_cases _ _
  have hlacks := (hbefore.lacks_of_gone hserde hs₀ hopen₀ hother).step hserde hsteps
    (by
      rintro key id ⟨-, -, drawn, hdrawn, -, rfl⟩ ⟨hid, -⟩
      exact hids e List.mem_cons_self drawn hdrawn hid)
  have hnone : s.state.Lacks fun _ id => id = x.id := by
    intro key y hy hid
    refine hlacks.store s hs hopen key y hy ⟨hid, ?_⟩
    rintro rfl
    rw [hgone] at hy
    cases hy
  have hunknown : s.state.Lacks fun key _ => key = tokenHash C token := by
    rintro key y hy rfl
    rw [hgone] at hy
    cases hy
  intro e' he
  exact ⟨hrun.not_shown hserde hsplit x.id (fun _ => Run.nowhere hserde hs hopen hnone)
      (fun e' he => hids e' (List.mem_cons_of_mem _ he)) e' he,
    hrun.not_known hserde hsplit token (fun _ => Run.nowhere hserde hs hopen hunknown)
      htokens e' he⟩

/-- A call that is answered is answered by a store, and leaves a store. -/
theorem Run.answered (hrun : Run C S parseTime disk history w) {later earlier : List Entry}
    {e : Entry} (hsplit : history = later ++ e :: earlier)
    (hreply : e.reply ≠ .none ∧ ∀ result, e.reply ≠ .started result) :
    ∃ s₀ s d, e.before.store = some s₀ ∧ e.after.store = some s ∧
      s₀.step C e.before.disk e.call = (e.reply, s, d) ∧ Auth.World.Sound C e.before := by
  obtain ⟨hbefore, hentry⟩ := hrun.at_entry hsplit
  have hsteps : Steps C S parseTime e.before e.call e.reply e.after := by
    rw [hentry]
    exact World.step_cases _ _
  generalize e.call = call at hsteps ⊢
  generalize e.reply = reply at hsteps hreply ⊢
  generalize e.after = after at hsteps ⊢
  cases hsteps with
  | started => exact absurd rfl (hreply.2 _)
  | refused => exact absurd rfl (hreply.2 _)
  | stopped => exact absurd rfl hreply.1
  | called call s s' reply t' hstore _ hstep _ _ _ =>
    exact ⟨s, s', _, hstore, rfl, hstep, hbefore.sound⟩

/-- What `logout` leaves when it succeeds. -/
theorem logout_ok {t : Tx} {token : String} {save : Write}
    (h : (logout C t token save).1 = .ok ()) :
    (logout C t token save).2.state.storageFailed = false ∧
      (logout C t token save).2.state.sessions.get? (tokenHash C token) = none := by
  unfold logout at h ⊢
  split at h
  · cases h
  · next hworks =>
    rw [if_neg hworks]
    rw [Bool.not_eq_true] at hworks
    dsimp only at h ⊢
    split at h
    · next hnone =>
      rw [if_pos hnone]
      rw [Bool.not_eq_true', Table.contains_eq_false] at hnone
      exact ⟨hworks, hnone⟩
    · next hstored =>
      rw [if_neg hstored]
      unfold removeSession at h ⊢
      dsimp only at h ⊢
      rcases saveSessions_cases t (t.state.sessions.erase (tokenHash C token)) save with
        ⟨d, hsave, -⟩ | ⟨d, hsave, -⟩
      · rw [hsave]
        refine ⟨hworks, ?_⟩
        show (t.state.sessions.erase _).get? _ = none
        rw [Table.get?_erase, if_pos rfl]
      · rw [hsave] at h
        cases h

/-- After a revocation that is answered with `Ok` a store that works has no session with the id. -/
theorem Run.revoked (hrun : Run C S parseTime disk history w) {later earlier : List Entry}
    {e : Entry} (hsplit : history = later ++ e :: earlier) {token id : String} {now : ℤ}
    {admitted own : Bool} {prune save : Write}
    (hcall : e.call = .revoke token id now admitted prune save)
    (hreply : e.reply = .revoked (.ok own)) :
    ∃ s, e.after.store = some s ∧ s.state.storageFailed = false ∧
      s.state.Lacks fun _ i => i = id := by
  have hanswer : e.reply ≠ .none ∧ ∀ result, e.reply ≠ .started result := by
    rw [hreply]
    exact ⟨fun h => (by cases h), fun _ h => (by cases h)⟩
  obtain ⟨s₀, s, d, hs₀, hs, hstep, hsound⟩ := hrun.answered hsplit hanswer
  rw [hcall, hreply] at hstep
  have hmoves : Moves C [] [] ⟨s₀.state, e.before.disk⟩ _ :=
    revoke_moves ⟨s₀.state, e.before.disk⟩ token id now prune save
  obtain ⟨result, s', t', heq, -, hfollows, -, hvalue⟩ := ask_cases s₀ e.before.disk admitted
    (fun t => revoke C t token id now prune save) .revoked hmoves
  have hstep : s₀.ask e.before.disk admitted
    (fun t => revoke C t token id now prune save) .revoked = (.revoked (.ok own), s, d) := hstep
  rw [heq] at hstep
  cases hstep
  obtain ⟨rfl, hwork⟩ := hvalue own rfl
  obtain ⟨t, hpasses, -, target, y, hy, hid, hopen, herase⟩ := revoke_ok hwork
  obtain ⟨extra, hstate, -⟩ := hfollows.cancelled
  have hids := (Sound.moves hpasses.moves (hsound s₀ hs₀) hpasses.notFailed).ids
  refine ⟨s, hs, ?_, ?_⟩
  · rw [hstate]
    exact hopen
  · rw [hstate]
    intro key x hx hsame
    have hx : (t.state.sessions.erase target).get? key = some x := herase ▸ hx
    rw [Table.get?_erase] at hx
    split at hx
    · cases hx
    · next hne => exact hne (hids key target x y hx hy (hsame.trans hid.symm))

/-- After a logout that is answered with `Ok` a store that works has no session of the token. -/
theorem Run.loggedOut (hrun : Run C S parseTime disk history w) {later earlier : List Entry}
    {e : Entry} (hsplit : history = later ++ e :: earlier) {token : String} {admitted : Bool}
    {save : Write} (hcall : e.call = .logout token admitted save)
    (hreply : e.reply = .loggedOut (.ok ())) :
    ∃ s, e.after.store = some s ∧ s.state.storageFailed = false ∧
      s.state.Lacks fun key _ => key = tokenHash C token := by
  have hanswer : e.reply ≠ .none ∧ ∀ result, e.reply ≠ .started result := by
    rw [hreply]
    exact ⟨fun h => (by cases h), fun _ h => (by cases h)⟩
  obtain ⟨s₀, s, d, hs₀, hs, hstep, -⟩ := hrun.answered hsplit hanswer
  rw [hcall, hreply] at hstep
  have hmoves : Moves C [] [] ⟨s₀.state, e.before.disk⟩ _ :=
    logout_moves ⟨s₀.state, e.before.disk⟩ token save
  obtain ⟨result, s', t', heq, -, hfollows, -, hvalue⟩ := ask_cases s₀ e.before.disk admitted
    (fun t => logout C t token save) .loggedOut hmoves
  have hstep : s₀.ask e.before.disk admitted (fun t => logout C t token save) .loggedOut =
    (.loggedOut (.ok ()), s, d) := hstep
  rw [heq] at hstep
  cases hstep
  obtain ⟨rfl, hwork⟩ := hvalue () rfl
  obtain ⟨hopen, hnone⟩ := logout_ok hwork
  obtain ⟨extra, hstate, -⟩ := hfollows.cancelled
  refine ⟨s, hs, ?_, ?_⟩
  · rw [hstate]
    exact hopen
  · rw [hstate]
    rintro key x hx rfl
    exact absurd (hnone.symm.trans hx) (by simp)

/-- **A revocation that is answered with `Ok` is final**, and so is a logout: no later answer shows
    the session that was revoked, and no later call accepts the token that was logged out. -/
theorem revoked_for_good (hserde : ReadsRows S) (hrun : Run C S parseTime disk history w)
    {later earlier : List Entry} {e : Entry} (hsplit : history = later ++ e :: earlier) :
    (∀ token id now admitted prune save own, e.call = .revoke token id now admitted prune save →
      e.reply = .revoked (.ok own) →
      (∀ e' ∈ later, ∀ drawn ∈ e'.call.ids, Base64.urlSafeNoPad drawn.toList ≠ id) →
      ∀ e' ∈ later, ¬ e'.reply.Shows id) ∧
    ∀ token admitted save, e.call = .logout token admitted save → e.reply = .loggedOut (.ok ()) →
      (∀ e' ∈ later, ∀ drawn ∈ e'.call.tokens,
        tokenHash C (Base64.urlSafeNoPad drawn.toList) ≠ tokenHash C token) →
      ∀ e' ∈ later, e'.call.token = some token → ¬ e'.reply.Knows := by
  constructor
  · intro token id now admitted prune save own hcall hreply hdraws
    obtain ⟨s, hs, hopen, hgone⟩ := hrun.revoked hsplit hcall hreply
    exact hrun.not_shown hserde hsplit id (fun _ => Run.nowhere hserde hs hopen hgone) hdraws
  · intro token admitted save hcall hreply hdraws
    obtain ⟨s, hs, hopen, hgone⟩ := hrun.loggedOut hsplit hcall hreply
    exact hrun.not_known hserde hsplit token (fun _ => Run.nowhere hserde hs hopen hgone) hdraws

end

/-! ### A logout

The session of the first login is logged out and its token is sent again. -/

namespace Example

variable {s : Store} {x : Session} {a : Account}

/-- No session file is read in this run. -/
theorem reads_rows : ReadsRows serde := by
  intro rows file h
  have hnone : ∀ raw, serde.fromSlice raw = none := fun raw => rfl
  unfold parseSessionFile at h
  rw [hnone] at h
  split at h
  · cases h
  · split at h <;> cases h

/-- A store after its session is logged out. -/
def out (s : Store) : Store :=
  Store.sync { s with state := { s.state.cancel [session.cancel] with
    sessions := s.state.sessions.erase (tokenHash crypto (token 1)) } }

/-- The files after the session is logged out. -/
def outDisk : Disk := { firstDisk with sessions := some (sessionText Table.empty) }

def logoutCall : Call := .logout (token 1) true .done

/-- A request with the token of the first login. -/
def accessCall : Call := .access (token 1) false now true .done .done

/-- The session is in the table. -/
theorem Holds.stored (h : Holds s x a) :
    s.state.sessions.get? (tokenHash crypto (token 1)) = some x :=
  (h.sessions _ _).mpr ⟨rfl, rfl⟩

/-- It is the only one. -/
theorem Holds.erased (h : Holds s x a) :
    s.state.sessions.erase (tokenHash crypto (token 1)) = Table.empty := by
  apply Table.ext_entries
  refine List.filter_eq_nil_iff.mpr fun e he => ?_
  have hkey := ((h.sessions e.1 e.2).mp (Table.mem_entries.mp he)).1
  simp [hkey]

/-- The file without sessions is not too large. -/
theorem empty_fits : (sessionText Table.empty).length ≤ sessionFileLimit := by
  refine sessionText_fits (by decide) fun key x hx => ?_
  cases hx

/-- A logout of the session. -/
theorem Holds.logout (h : Holds s session a) :
    s.step crypto firstDisk logoutCall = (.loggedOut (.ok ()), out s, outDisk) := by
  have hstored : s.state.sessions.contains (tokenHash crypto (token 1)) = true :=
    Table.contains_iff.mpr ⟨session, h.stored⟩
  have hwrite : firstDisk.writeSessions Table.empty .done = (true, outDisk) := by
    unfold Disk.writeSessions
    rw [if_neg (not_lt.mpr empty_fits)]
    rfl
  have hsave : Tx.saveSessions ⟨s.state, firstDisk⟩ Table.empty .done =
      (true, ⟨s.state, outDisk⟩) := by
    unfold Tx.saveSessions
    dsimp only
    rw [hwrite]
  have hremove : Auth.logout crypto ⟨s.state, firstDisk⟩ (token 1) .done =
      (.ok (), ⟨{ s.state.cancel [session.cancel] with
        sessions := s.state.sessions.erase (tokenHash crypto (token 1)) }, outDisk⟩) := by
    unfold Auth.logout removeSession
    dsimp only
    rw [if_neg (by rw [h.notFailed]; exact Bool.false_ne_true), hstored, Bool.not_true,
      if_neg Bool.false_ne_true, h.erased, hsave]
    dsimp only
    rw [h.stored]
    rfl
  unfold logoutCall Store.step Store.ask Store.transact total
  dsimp only
  rw [if_neg (by rw [h.notClosed]; exact Bool.false_ne_true), Bool.not_true,
    if_neg Bool.false_ne_true, hremove]
  rfl

/-- After the logout it is gone. -/
theorem out_gone (s : Store) : (out s).state.sessions.get? (tokenHash crypto (token 1)) = none := by
  obtain ⟨state, closed, registry, _, logins, changes⟩ := s
  cases closed <;>
  · show (state.sessions.erase (tokenHash crypto (token 1))).get? _ = none
    rw [Table.get?_erase, if_pos rfl]

/-- The token is sent again. -/
def again : Entry := World.entry crypto serde noTime ⟨outDisk, some (out first)⟩ accessCall

/-- The run up to there. -/
def outHistory : List Entry :=
  [again] ++ ⟨⟨firstDisk, some first⟩, logoutCall, .loggedOut (.ok ()),
    ⟨outDisk, some (out first)⟩⟩ ::
    firstHistory

/-- The logout and what follows it are a run. -/
theorem out_run : Run crypto serde noTime disk outHistory again.after :=
  (first_run.call logoutCall (fun _ _ h => (by cases h)) first_holds.logout).step _ _ accessCall

/-- The token is unknown afterwards, and the session is not shown. -/
theorem again_removed : ¬ again.reply.Shows session.id ∧ ¬ again.reply.Knows := by
  have hsplit : outHistory = [again] ++ _ :: firstHistory := rfl
  have hgone := removed_for_good reads_rows out_run hsplit rfl first_holds.notFailed rfl
    first_holds.notFailed first_holds.stored (out_gone first)
    (by
      intro e he drawn hdrawn
      rcases List.mem_cons.mp he with rfl | he
      · cases hdrawn
      · rw [List.mem_singleton.mp he] at hdrawn
        cases hdrawn)
    (by
      intro e he drawn hdrawn
      rw [List.mem_singleton.mp he] at hdrawn
      cases hdrawn)
    again List.mem_cons_self
  exact ⟨hgone.1, hgone.2 rfl⟩

/-- The same token is presented, and nobody is known by it. -/
theorem again_revoked : again.call.token = some (token 1) ∧ ¬ again.reply.Knows := by
  have hsplit : outHistory = [again] ++ _ :: firstHistory := rfl
  refine ⟨rfl, (revoked_for_good reads_rows out_run hsplit).2 (token 1) true .done rfl rfl ?_
    again List.mem_cons_self rfl⟩
  intro e he drawn hdrawn
  rw [List.mem_singleton.mp he] at hdrawn
  cases hdrawn

end Example

end Hmux.Auth
