import Mathlib.Data.List.Induction
import Mathlib.Data.List.Nodup
import Hmux.Gateway.HubRuns

namespace Hmux.Gateway

open Hmux.Lib Hmux.Protocol

/-!
# Gateway — one connection cannot touch another

The hub outlives the connections it serves, and so do late drops, late messages and late
readers of an earlier connection.  What they can reach is guarded by the generation they carry.

* `Isolated` — the invariant: whatever is open belongs to the connection being served, and
  nothing is left of a connection that is gone;
* `Kept` — what every operation that opens nothing does: it only removes;
* `isolated_step`, `isolated_run` — every operation keeps the invariant;
* `step_stale` — a call with another generation changes nothing;
* `Ids` — no id is handed out twice;
* `generation_isolation` — all of it, for every run.
-/

/-- Whatever is open was opened on the connection being served. -/
structure Isolated (s : State) : Prop where
  pending : ∀ (id : String) (p : Pending), s.pending[id]? = some p →
    s.generation? = some p.generation
  views : ∀ (id : String) (v : ViewState), s.views[id]? = some v → s.generation? = some v.generation
  uploads : ∀ (id : String) (u : UploadState), s.uploads[id]? = some u →
    s.generation? = some u.generation
  offline : s.peer = none → s.catalog = none ∧ s.usage = (none, none) ∧ s.updated = none ∧
    s.outputCap = false ∧ s.uploadCap = false
  pending_le : s.pending.size ≤ maxPending
  views_le : s.views.size ≤ maxViews
  uploads_le : s.uploads.size ≤ maxUploads

/-- The connection stays, nothing is opened, and without a connection nothing changes at
    all in the caches. -/
structure Kept (s s' : State) : Prop where
  generation : s'.generation? = s.generation?
  nextGeneration : s'.nextGeneration = s.nextGeneration
  nextId : s'.nextId = s.nextId
  pending : ∀ (id : String) (p : Pending), s'.pending[id]? = some p → s.pending[id]? = some p
  views : ∀ (id : String) (v : ViewState), s'.views[id]? = some v → s.views[id]? = some v
  uploads : ∀ (id : String) (u : UploadState), s'.uploads[id]? = some u →
    ∃ u₀, s.uploads[id]? = some u₀ ∧ u₀.generation = u.generation
  pending_le : s'.pending.size ≤ s.pending.size
  views_le : s'.views.size ≤ s.views.size
  uploads_le : s'.uploads.size ≤ s.uploads.size
  offline : s.peer = none → s'.catalog = s.catalog ∧ s'.usage = s.usage ∧
    s'.updated = s.updated ∧ s'.outputCap = s.outputCap ∧ s'.uploadCap = s.uploadCap

/-- There is a generation exactly when there is a peer. -/
theorem generation?_eq_none {s : State} : s.generation? = none ↔ s.peer = none := by
  rw [State.generation?, Option.map_eq_none_iff]

/-- Doing nothing keeps a state. -/
theorem Kept.refl (s : State) : Kept s s where
  generation := rfl
  nextGeneration := rfl
  nextId := rfl
  pending := fun _ _ h => h
  views := fun _ _ h => h
  uploads := fun _ u h => ⟨u, h, rfl⟩
  pending_le := Nat.le_refl _
  views_le := Nat.le_refl _
  uploads_le := Nat.le_refl _
  offline := fun _ => ⟨rfl, rfl, rfl, rfl, rfl⟩

/-- An operation that opens nothing keeps the connection's things apart. -/
theorem Isolated.kept {s s' : State} (h : Isolated s) (hk : Kept s s') : Isolated s' where
  pending := fun id p hp => hk.generation.trans (h.pending id p (hk.pending id p hp))
  views := fun id v hv => hk.generation.trans (h.views id v (hk.views id v hv))
  uploads := fun id u hu => by
    obtain ⟨u₀, hu₀, hgen⟩ := hk.uploads id u hu
    rw [hk.generation, h.uploads id u₀ hu₀, hgen]
  offline := fun hnone => by
    have hs : s.peer = none := by
      rw [← generation?_eq_none, ← hk.generation, generation?_eq_none]
      exact hnone
    obtain ⟨h₁, h₂, h₃, h₄, h₅⟩ := hk.offline hs
    rw [h₁, h₂, h₃, h₄, h₅]
    exact h.offline hs
  pending_le := Nat.le_trans hk.pending_le h.pending_le
  views_le := Nat.le_trans hk.views_le h.views_le
  uploads_le := Nat.le_trans hk.uploads_le h.uploads_le

/-! ### Operations that open nothing

They remove or leave alone, and what is left belongs to the connection as before. -/

section Erase

variable {β : Type} {m : Std.ExtTreeMap String β} {id : String}

/-- What is found after a removal was found before. -/
theorem getElem?_of_erase {k : String} {v : β} (h : (m.erase id)[k]? = some v) :
    m[k]? = some v := by
  rw [Std.ExtTreeMap.getElem?_erase] at h
  split at h
  · cases h
  · exact h

/-- A removal makes nothing new. -/
theorem size_erase_le : (m.erase id).size ≤ m.size := Std.ExtTreeMap.size_erase_le

end Erase

namespace Kept

variable (s : State) (id : String)

/-- A pending request is removed. -/
theorem erasePending : Kept s { s with pending := s.pending.erase id } :=
  { Kept.refl s with
    pending := fun _ _ h => getElem?_of_erase h
    pending_le := size_erase_le }

/-- A view is removed. -/
theorem eraseViews : Kept s { s with views := s.views.erase id } :=
  { Kept.refl s with
    views := fun _ _ h => getElem?_of_erase h
    views_le := size_erase_le }

/-- An upload is removed. -/
theorem eraseUploads : Kept s { s with uploads := s.uploads.erase id } :=
  { Kept.refl s with
    uploads := fun _ u h => ⟨u, getElem?_of_erase h, rfl⟩
    uploads_le := size_erase_le }

end Kept

namespace Hub

variable (codec : Codec) (h : Hub) (generation : UInt64)

/-- `remove_pending` only removes. -/
theorem kept_removePending (id : String) :
    Kept h.state (h.removePending generation id).state := by
  rw [removePending]
  split
  · exact Kept.erasePending _ _
  · exact Kept.refl _

/-- `remove_view` only removes. -/
theorem kept_removeView (id : String) (code : UInt16) :
    Kept h.state (h.removeView generation id code).1.state := by
  rw [removeView]
  split
  · exact Kept.eraseViews _ _
  · exact Kept.refl _

/-- `remove_upload` only removes. -/
theorem kept_removeUpload (id : String) :
    Kept h.state (h.removeUpload generation id).1.state := by
  rw [removeUpload]
  split
  · exact Kept.refl _
  · split
    · exact Kept.eraseUploads _ _
    · exact Kept.refl _

/-- `Hub::peer` returns the peer only for its own generation. -/
theorem peer_eq_ok {peer : Peer} (hp : h.peer generation = .ok peer) :
    h.state.peer = some peer ∧ peer.generation = generation := by
  rw [Hub.peer] at hp
  split at hp
  · cases hp
  · rename_i p hs
    split at hp
    · cases hp
    · rename_i hgen
      injection hp with hp
      subst hp
      exact ⟨hs, not_not.mp hgen⟩

/-- The sender of the peer changes, and the generation does not. -/
theorem kept_withSender {peer : Peer} (hp : h.state.peer = some peer) (sender : Sender) :
    Kept h.state (h.withSender peer sender).state :=
  { Kept.refl h.state with
    generation := by simp [withSender, State.generation?, hp]
    offline := fun hnone => by rw [hp] at hnone; cases hnone }

/-- `cleanup` changes nothing but the sender of the peer. -/
theorem kept_cleanup (body : Pb.EnvelopeBody) :
    Kept h.state (h.cleanup codec generation body).state := by
  rw [cleanup]
  split
  · exact Kept.refl _
  · rename_i peer hp
    have hpeer := (h.peer_eq_ok generation hp).1
    split
    · exact h.kept_withSender hpeer _
    · split
      · exact h.kept_withSender hpeer _
      · exact h.kept_withSender hpeer _

/-- `submit` changes nothing but the sender of the peer. -/
theorem kept_submit (body : Pb.EnvelopeBody) :
    Kept h.state (h.submit codec generation body).1.state := by
  rw [submit]
  split
  · exact Kept.refl _
  · rename_i peer hp
    have hpeer := (h.peer_eq_ok generation hp).1
    dsimp only
    split
    · exact Kept.refl _
    · split
      · exact Kept.refl _
      · split
        · split
          · exact Kept.refl _
          · exact h.kept_withSender hpeer _
        · split
          · exact Kept.refl _
          · exact h.kept_withSender hpeer _

/-! ### Messages

A message reaches what its id names, on the connection it came from; on any other one it is refused
before anything is looked up. -/

/-- While a connection is served, its caches and flags may change. -/
theorem kept_caches (hserved : h.state.generation? = some generation)
    (catalog : Option (List UInt8)) (usage : Option (List UInt8) × Option (List UInt8))
    (updated : Option ℕ) (outputCap uploadCap : Bool) (admission : CompletionAdmission) :
    Kept h.state { h.state with
      catalog, usage, updated, outputCap, uploadCap, completionAdmission := admission } :=
  { Kept.refl h.state with
    offline := fun hnone => by
      rw [generation?_eq_none.mpr hnone] at hserved
      cases hserved }

/-- A snapshot is cached, and the sender of the peer is closed if there is no room. -/
theorem kept_cacheSnapshot (slot : Slot) (raw : List UInt8) (moment : Moment) :
    Kept h.state (h.cacheSnapshot codec generation slot raw moment).1.state := by
  rw [cacheSnapshot]
  split
  · exact Kept.refl _
  · rename_i hserved
    have hserved := not_not.mp hserved
    dsimp only
    split
    · cases slot <;> exact h.kept_caches generation hserved _ _ _ _ _ _
    · cases slot <;> exact h.kept_caches generation hserved _ _ _ _ _ _

/-- A response answers a request of the state. -/
theorem kept_onResponse (response : Pb.Response) :
    Kept h.state (h.onResponse codec generation response).1.state := by
  rw [onResponse]
  split
  · exact Kept.refl _
  · dsimp only
    split
    · exact Kept.erasePending _ _
    · split
      · exact Kept.erasePending _ _
      · split
        · exact Kept.erasePending _ _
        · exact Kept.erasePending _ _

/-- A view whose buffer is full is removed. -/
theorem kept_closeFull (id : String) (cell : ViewCell) :
    Kept h.state (h.closeFull id cell).state := Kept.eraseViews _ _

/-- Output goes to a view or closes it. -/
theorem kept_onTerminalOutput (data : Pb.Data) :
    Kept h.state (h.onTerminalOutput codec generation data).1.state := by
  rw [onTerminalOutput]
  split
  · exact Kept.refl _
  · split
    · exact Kept.refl _
    · dsimp only
      split
      · exact h.kept_closeFull _ _
      · exact Kept.refl _

/-- A terminal that ended loses its view. -/
theorem kept_onTerminalExit (response : Pb.Response) :
    Kept h.state (h.onTerminalExit response).1.state := by
  rw [onTerminalExit]
  split
  · exact Kept.refl _
  · dsimp only
    split
    · exact Kept.refl _
    · exact h.kept_closeFull _ _

/-- The result of a refresh changes no table. -/
theorem kept_onRefreshResult (response : Pb.Response) :
    Kept h.state (h.onRefreshResult response).1.state := by
  rw [onRefreshResult]
  split
  · exact Kept.refl _
  · dsimp only
    split
    · exact Kept.refl _
    · exact h.kept_closeFull _ _

/-- Progress of an upload changes its own entry. -/
theorem kept_onUploadProgress (id : String) (event : UploadEvent) :
    Kept h.state (h.onUploadProgress id event).1.state := by
  rw [onUploadProgress]
  split
  · exact Kept.refl _
  · split
    · exact Kept.refl _
    · dsimp only
      split
      · exact Kept.refl _
      · exact Kept.eraseUploads _ _

/-- The result of an upload marks its entry and keeps its generation. -/
theorem kept_terminal {id : String} {upload : UploadState}
    (hu : h.state.uploads[id]? = some upload) :
    Kept h.state { h.state with
      uploads := h.state.uploads.insert id { upload with terminal := true } } :=
  { Kept.refl h.state with
    uploads := fun id' u hu' => by
      rw [Std.ExtTreeMap.getElem?_insert] at hu'
      split at hu'
      · rename_i heq
        rw [Std.compare_eq_iff_eq] at heq
        subst heq
        injection hu' with hu'
        subst hu'
        exact ⟨upload, hu, rfl⟩
      · exact ⟨u, hu', rfl⟩
    uploads_le := by
      have hmem : id ∈ h.state.uploads :=
        Std.ExtTreeMap.mem_iff_isSome_getElem?.mpr (by rw [hu]; rfl)
      rw [Std.ExtTreeMap.size_insert, if_pos (Std.ExtTreeMap.mem_iff_contains.mp hmem)] }

/-- The result of an upload does as well. -/
theorem kept_onUploadResult (response : Pb.Response) (event : Pb.Response → UploadEvent) :
    Kept h.state (h.onUploadResult codec response event).1.state := by
  rw [onUploadResult]
  split
  · exact Kept.refl _
  · rename_i upload hu
    split
    · exact Kept.refl _
    · split
      · exact Kept.refl _
      · dsimp only
        split
        · exact h.kept_terminal hu
        · exact h.kept_terminal hu

/-- **Step lemma.** A frame of the connection that is served brings in nothing of another one. -/
theorem kept_onBody (hserved : h.state.generation? = some generation) (body : Pb.EnvelopeBody)
    (moment : Moment) : Kept h.state (h.onBody codec generation body moment).1.state := by
  cases body with
  | hello hello => exact h.kept_caches generation hserved _ _ _ _ _ _
  | usageUnavailable _ => exact h.kept_caches generation hserved _ _ _ _ _ _
  | response response => exact h.kept_onResponse codec generation response
  | terminalOutput data => exact h.kept_onTerminalOutput codec generation data
  | terminalExit response => exact h.kept_onTerminalExit response
  | refreshResult response => exact h.kept_onRefreshResult response
  | uploadReady reference => exact h.kept_onUploadProgress reference.id _
  | uploadAck ack => exact h.kept_onUploadProgress ack.id _
  | uploadComplete response => exact h.kept_onUploadResult codec response _
  | uploadError response => exact h.kept_onUploadResult codec response _
  | taskComplete completion => exact h.kept_caches generation hserved _ _ _ _ _ _
  | _ => exact Kept.refl _

/-- **Messages open nothing.** -/
theorem kept_dispatchLocked (envelope : Pb.Envelope) (moment : Moment) :
    Kept h.state (h.dispatchLocked codec generation envelope moment).1.state := by
  rw [dispatchLocked]
  split
  · exact Kept.refl _
  · split
    · exact Kept.refl _
    · exact h.kept_cacheSnapshot codec generation _ _ _
  · split
    · exact Kept.refl _
    · split
      · exact Kept.refl _
      · exact h.kept_cacheSnapshot codec generation _ _ _
  · split
    · exact Kept.refl _
    · rename_i hserved
      exact h.kept_onBody codec generation (not_not.mp hserved) _ _

/-! ### Operations that open something

What is opened carries the generation that is served, and has an id that was never used. -/

/-- What an id is: the generation it was issued for and the counter, so no two of them are
    equal. -/
theorem idText_inj {g g' n n' : UInt64} (h : idText g n = idText g' n') : g = g' ∧ n = n' := by
  have hlist := String.ofList_injective h
  obtain ⟨hg, hn⟩ := List.append_inj hlist (by rw [hexText_length, hexText_length])
  have hlt : ∀ x : UInt64, x.toNat < 16 ^ 16 := fun x => x.toNat_lt
  exact ⟨UInt64.toNat_inj.mp (hexText_inj (hlt g) (hlt g') hg),
    UInt64.toNat_inj.mp (hexText_inj (hlt n) (hlt n') hn)⟩

/-- **Step lemma.** A request is refused without a trace, or spends an id for nothing, or
    registers itself under a new id. -/
theorem requestStart_cases (operation : Int32) :
    (∃ e, h.requestStart generation operation = (h, .error e)) ∨
      ∃ next, checkedSucc h.state.nextId = some next ∧ h.state.generation? = some generation ∧
        h.state.pending.size < maxPending ∧
        ((Pb.Operation.ofInt32 operation = none ∧ h.requestStart generation operation
            = ({ h with state := { h.state with nextId := next } }, .error .invalid)) ∨
          ∃ op, Pb.Operation.ofInt32 operation = some op ∧ h.requestStart generation operation
            = ({ h with state := { h.state with
                nextId := next
                pending := h.state.pending.insert (idText generation next)
                  { generation, context := .operation op } } }, .ok (idText generation next))) := by
  rw [requestStart]
  split
  · exact Or.inl ⟨_, rfl⟩
  rename_i hserved
  split
  · exact Or.inl ⟨_, rfl⟩
  rename_i hroom
  cases hn : checkedSucc h.state.nextId with
  | none => exact Or.inl ⟨.capacity, by simp [nextId, hn]⟩
  | some next =>
    refine Or.inr ⟨next, rfl, not_not.mp hserved, Nat.lt_of_not_le hroom, ?_⟩
    simp only [nextId, hn, Option.map_some]
    cases hop : Pb.Operation.ofInt32 operation with
    | none => exact Or.inl ⟨rfl, rfl⟩
    | some op => exact Or.inr ⟨op, rfl, rfl⟩

/-- **Step lemma.** A view is refused without a trace or opened under a new id, which its
    request shares. -/
theorem openViewStart_cases :
    (∃ e, h.openViewStart generation = (h, .error e)) ∨
      ∃ next, checkedSucc h.state.nextId = some next ∧ h.state.generation? = some generation ∧
        h.state.pending.size < maxPending ∧ h.state.views.size < maxViews ∧
        h.openViewStart generation
          = ({ h with
                state := { h.state with
                  nextId := next
                  views := h.state.views.insert (idText generation next) { generation }
                  pending := h.state.pending.insert (idText generation next)
                    { generation, context := .terminalOpen } }
                viewCell := Function.update h.viewCell (idText generation next) ViewCell.new },
              .ok (idText generation next, h.state.outputCap)) := by
  rw [openViewStart]
  split
  · exact Or.inl ⟨_, rfl⟩
  rename_i hserved
  split
  · exact Or.inl ⟨_, rfl⟩
  rename_i hviews
  split
  · exact Or.inl ⟨_, rfl⟩
  rename_i hroom
  cases hn : checkedSucc h.state.nextId with
  | none => exact Or.inl ⟨.capacity, by simp [nextId, hn]⟩
  | some next =>
    refine Or.inr ⟨next, rfl, not_not.mp hserved, Nat.lt_of_not_le hroom,
      Nat.lt_of_not_le hviews, ?_⟩
    simp only [nextId, hn, Option.map_some]

/-- **Step lemma.** An upload is refused without a trace or opened under a new id. -/
theorem openUploadStart_cases :
    (∃ e, h.openUploadStart generation = (h, .error e)) ∨
      ∃ next, checkedSucc h.state.nextId = some next ∧ h.state.generation? = some generation ∧
        h.state.uploads.size < maxUploads ∧
        h.openUploadStart generation
          = ({ h with
                state := { h.state with
                  nextId := next
                  uploads := h.state.uploads.insert (idText generation next)
                    { generation, terminal := false } }
                uploadQueue := Function.update h.uploadQueue (idText generation next)
                  (Channel.new uploadEvents) },
              .ok (idText generation next)) := by
  rw [openUploadStart]
  split
  · exact Or.inl ⟨_, rfl⟩
  rename_i hserved
  split
  · exact Or.inl ⟨_, rfl⟩
  split
  · exact Or.inl ⟨_, rfl⟩
  rename_i hroom
  cases hn : checkedSucc h.state.nextId with
  | none => exact Or.inl ⟨.capacity, by simp [nextId, hn]⟩
  | some next =>
    refine Or.inr ⟨next, rfl, not_not.mp hserved, Nat.lt_of_not_le hroom, ?_⟩
    simp only [nextId, hn, Option.map_some]

end Hub

section Insert

variable {β : Type} {m : Std.ExtTreeMap String β} {id : String} {v : β} {P : β → Prop}

/-- What holds of every entry and of a new one holds after the insertion. -/
theorem forall_insert (h : ∀ (k : String) (x : β), m[k]? = some x → P x) (hv : P v) :
    ∀ (k : String) (x : β), (m.insert id v)[k]? = some x → P x := by
  intro k x hx
  rw [Std.ExtTreeMap.getElem?_insert] at hx
  split at hx
  · injection hx with hx
    exact hx ▸ hv
  · exact h k x hx

/-- There is room for one more entry below a limit. -/
theorem size_insert_le_of_lt {n : ℕ} (h : m.size < n) : (m.insert id v).size ≤ n :=
  Nat.le_trans Std.ExtTreeMap.size_insert_le h

end Insert

namespace Hub

variable {h : Hub} (generation : UInt64)

/-- A new connection finds the tables empty. -/
theorem isolated_attach (hi : Isolated h.state) (sender : Sender) (protocol : Negotiated) :
    Isolated (h.attach sender protocol).1.state := by
  rw [attach]
  split
  · exact hi
  rename_i hpeer
  split
  · exact hi
  have hnone : h.state.peer = none := by simpa using hpeer
  have hgen := generation?_eq_none.mpr hnone
  -- nothing was open, so nothing is open on the new connection
  refine { hi with pending := ?_, views := ?_, uploads := ?_, offline := ?_ }
  · intro id p hp
    have := hi.pending id p hp
    rw [hgen] at this
    cases this
  · intro id v hv
    have := hi.views id v hv
    rw [hgen] at this
    cases this
  · intro id u hu
    have := hi.uploads id u hu
    rw [hgen] at this
    cases this
  · intro hnone'
    cases hnone'

/-- A connection that ends leaves them empty. -/
theorem isolated_detach (hi : Isolated h.state) (reason : HubError) :
    Isolated (h.detachWithReason generation reason).state := by
  rw [detachWithReason]
  split
  · exact hi
  · exact {
      pending := fun id p hp => by simp at hp
      views := fun id v hv => by simp at hv
      uploads := fun id u hu => by simp at hu
      offline := fun _ => ⟨rfl, rfl, rfl, rfl, rfl⟩
      pending_le := Nat.zero_le _
      views_le := Nat.zero_le _
      uploads_le := Nat.zero_le _ }

/-- A request is entered under the generation that is served. -/
theorem isolated_requestStart (hi : Isolated h.state) (operation : Int32) :
    Isolated (h.requestStart generation operation).1.state := by
  rcases h.requestStart_cases generation operation with
    ⟨e, heq⟩ | ⟨next, -, hserved, hroom, ⟨-, heq⟩ | ⟨op, -, heq⟩⟩
  · rw [heq]; exact hi
  · rw [heq]; exact { hi with }
  · rw [heq]
    exact { hi with
      pending := forall_insert hi.pending hserved
      pending_le := size_insert_le_of_lt hroom }

/-- A view is entered under the generation that is served. -/
theorem isolated_openViewStart (hi : Isolated h.state) :
    Isolated (h.openViewStart generation).1.state := by
  rcases h.openViewStart_cases generation with
    ⟨e, heq⟩ | ⟨next, -, hserved, hroom, hviews, heq⟩
  · rw [heq]; exact hi
  · rw [heq]
    exact { hi with
      pending := forall_insert hi.pending hserved
      views := forall_insert hi.views hserved
      pending_le := size_insert_le_of_lt hroom
      views_le := size_insert_le_of_lt hviews }

/-- An upload is entered under the generation that is served. -/
theorem isolated_openUploadStart (hi : Isolated h.state) :
    Isolated (h.openUploadStart generation).1.state := by
  rcases h.openUploadStart_cases generation with ⟨e, heq⟩ | ⟨next, -, hserved, hroom, heq⟩
  · rw [heq]; exact hi
  · rw [heq]
    exact { hi with
      uploads := forall_insert hi.uploads hserved
      uploads_le := size_insert_le_of_lt hroom }

end Hub

/-! ### Runs

By induction on the actions, with one lemma for the quiet ones. -/

/-- The action neither opens nor ends anything by itself: no connection, request, view or
    upload comes, and no connection goes. -/
def Action.quiet {codec : Codec} : Action codec → Bool
  | .attach _ _ => false
  | .detach _ _ => false
  | .request _ _ => false
  | .openView _ => false
  | .openUpload _ => false
  | _ => true

namespace World

variable {codec : Codec} {w : World codec}

/-- The requests of the wrapper, in terms of the hub. -/
theorem hub_request (generation : UInt64) (operation : Int32) :
    (w.request generation operation).hub = (w.hub.requestStart generation operation).1 := by
  rw [request]
  split
  · rename_i heq; rw [heq]; rfl
  · rename_i heq; rw [heq]

/-- What opening a view does to the hub. -/
theorem hub_openView (generation : UInt64) :
    (w.openView generation).hub = (w.hub.openViewStart generation).1 := by
  rw [openView]
  split
  · rename_i heq; rw [heq]; rfl
  · rename_i heq; rw [heq]

/-- What opening an upload does to the hub. -/
theorem hub_openUpload (generation : UInt64) :
    (w.openUpload generation).hub = (w.hub.openUploadStart generation).1 := by
  rw [openUpload]
  split
  · rename_i heq; rw [heq]; rfl
  · rename_i heq; rw [heq]

/-- **Step lemma.** A quiet action opens nothing and hands out nothing. -/
theorem quiet_step {a : Action codec} (ha : a.quiet = true) :
    Kept w.hub.state (w.step a).hub.state ∧ (w.step a).issued = w.issued ∧
      (w.step a).registered = w.registered := by
  cases a with
  -- these attach, detach or open something, and are not quiet
  | attach sender protocol => cases ha
  | detach generation reason => cases ha
  | request generation operation => cases ha
  | openView generation => cases ha
  | openUpload generation => cases ha
  | removePending generation id => exact ⟨w.hub.kept_removePending generation id, rfl, rfl⟩
  | removeView generation id code => exact ⟨w.hub.kept_removeView generation id code, rfl, rfl⟩
  | removeUpload generation id => exact ⟨w.hub.kept_removeUpload generation id, rfl, rfl⟩
  | dropLease id =>
    simp only [step, dropLease]
    split
    · exact ⟨Kept.refl _, rfl, rfl⟩
    · exact ⟨w.hub.kept_removeUpload _ id, rfl, rfl⟩
  | submit generation body => exact ⟨w.hub.kept_submit codec generation body, rfl, rfl⟩
  | cleanup generation body => exact ⟨w.hub.kept_cleanup codec generation body, rfl, rfl⟩
  | written =>
    simp only [step]
    split
    · exact ⟨Kept.refl _, rfl, rfl⟩
    · rename_i peer hpeer
      exact ⟨w.hub.kept_withSender hpeer _, rfl, rfl⟩
  | release n => exact ⟨Kept.refl _, rfl, rfl⟩
  | consume =>
    simp only [step]
    split
    · exact ⟨Kept.refl _, rfl, rfl⟩
    · exact ⟨Kept.refl _, rfl, rfl⟩
  | popView id =>
    simp only [step]
    split
    · exact ⟨Kept.refl _, rfl, rfl⟩
    · exact ⟨Kept.refl _, rfl, rfl⟩
  | uncountView id => exact ⟨Kept.refl _, rfl, rfl⟩
  -- a message is quiet: it only answers, removes or queues
  | dispatch generation envelope moment =>
    exact ⟨w.hub.kept_dispatchLocked codec generation envelope moment, rfl, rfl⟩
  | readJson generation message =>
    simp only [step]
    split
    · exact ⟨Kept.refl _, rfl, rfl⟩
    · exact ⟨Kept.refl _, rfl, rfl⟩
  | dispatchJson generation moment =>
    simp only [step]
    split
    · exact ⟨Kept.refl _, rfl, rfl⟩
    · split
      · exact ⟨Kept.refl _, rfl, rfl⟩
      · exact ⟨w.hub.kept_dispatchLocked codec generation _ moment, rfl, rfl⟩
  | receive id =>
    simp only [step, receive]
    split
    · exact ⟨Kept.refl _, rfl, rfl⟩
    · split
      · exact ⟨Kept.refl _, rfl, rfl⟩
      · split
        · exact ⟨Kept.refl _, rfl, rfl⟩
        · exact ⟨Kept.refl _, rfl, rfl⟩
  | take id =>
    simp only [step, take]
    split
    · exact ⟨Kept.refl _, rfl, rfl⟩
    · split
      · exact ⟨Kept.refl _, rfl, rfl⟩
      · split
        · exact ⟨Kept.refl _, rfl, rfl⟩
        · exact ⟨Kept.refl _, rfl, rfl⟩

/-- **Step lemma.** Every critical section keeps the connections apart. -/
theorem isolated_step (hi : Isolated w.hub.state) (a : Action codec) :
    Isolated (w.step a).hub.state := by
  by_cases ha : a.quiet = true
  · exact hi.kept (quiet_step ha).1
  cases a with
  | attach sender protocol => exact Hub.isolated_attach hi sender protocol
  | detach generation reason => exact Hub.isolated_detach generation hi reason
  | request generation operation =>
    rw [step, hub_request]
    exact Hub.isolated_requestStart generation hi operation
  | openView generation =>
    rw [step, hub_openView]
    exact Hub.isolated_openViewStart generation hi
  | openUpload generation =>
    rw [step, hub_openUpload]
    exact Hub.isolated_openUploadStart generation hi
  | _ => exact absurd rfl ha

/-- At first there is nothing to keep apart. -/
theorem isolated_init : Isolated (init codec).hub.state where
  pending := fun id p hp => by simp [init, Hub.new] at hp
  views := fun id v hv => by simp [init, Hub.new] at hv
  uploads := fun id u hu => by simp [init, Hub.new] at hu
  offline := fun _ => ⟨rfl, rfl, rfl, rfl, rfl⟩
  pending_le := Nat.zero_le _
  views_le := Nat.zero_le _
  uploads_le := Nat.zero_le _

/-- **Run lemma.** -/
theorem isolated_run (actions : List (Action codec)) :
    Isolated ((init codec).run actions).hub.state := by
  induction actions using List.reverseRecOn with
  | nil => exact isolated_init
  | append_singleton actions a ih =>
    rw [run, List.foldl_append]
    exact isolated_step ih a

/-! ### Stale calls

A call that carries another generation than the one that is served finds nothing, and leaves the
state as it is. -/

/-- Nothing that is open answers to another generation. -/
theorem any_generation_eq_false {β : Type} {m : Std.ExtTreeMap String β} {gen : β → UInt64}
    {g? : Option UInt64} {generation : UInt64} (id : String)
    (h : ∀ (k : String) (x : β), m[k]? = some x → g? = some (gen x))
    (hstale : g? ≠ some generation) : m[id]?.any (fun x => gen x == generation) = false := by
  cases hm : m[id]? with
  | none => rfl
  | some x =>
    rw [Option.any_some, beq_eq_false_iff_ne]
    intro heq
    exact hstale (heq ▸ h id x hm)

/-- **Stale calls.** A call with a generation that is not being served leaves the locked state
    as it is. -/
theorem step_stale (hi : Isolated w.hub.state) {a : Action codec} {generation : UInt64}
    (ha : a.generation? = some generation)
    (hstale : w.hub.state.generation? ≠ some generation) :
    (w.step a).hub.state = w.hub.state := by
  -- nobody but the served generation has a peer
  have hpeer : ∃ e, w.hub.peer generation = .error e := by
    cases hp : w.hub.peer generation with
    | error e => exact ⟨e, rfl⟩
    | ok peer =>
      obtain ⟨hsome, hgen⟩ := w.hub.peer_eq_ok generation hp
      exact absurd (by rw [State.generation?, hsome, Option.map_some, hgen]) hstale
  -- a message of another generation is stale in every branch
  have hdispatch : ∀ envelope moment,
      (w.hub.dispatchLocked codec generation envelope moment).1.state = w.hub.state := by
    intro envelope moment
    simp only [Hub.dispatchLocked, Hub.cacheSnapshot, if_pos hstale]
    split
    · rfl
    · split <;> rfl
    · split
      · rfl
      · split <;> rfl
    · rfl
  cases a with
  -- these are not on behalf of a connection
  | attach sender protocol => cases ha
  | dropLease id => cases ha
  | written => cases ha
  | release n => cases ha
  | consume => cases ha
  | popView id => cases ha
  | uncountView id => cases ha
  | receive id => cases ha
  | take id => cases ha
  | detach g reason =>
    obtain rfl := Option.some.inj ha
    simp only [step, Hub.detachWithReason, if_pos hstale]
  | request g operation =>
    obtain rfl := Option.some.inj ha
    rw [step, hub_request, Hub.requestStart, if_pos hstale]
  | openView g =>
    obtain rfl := Option.some.inj ha
    rw [step, hub_openView, Hub.openViewStart, if_pos hstale]
  | openUpload g =>
    obtain rfl := Option.some.inj ha
    rw [step, hub_openUpload, Hub.openUploadStart, if_pos hstale]
  | removePending g id =>
    obtain rfl := Option.some.inj ha
    -- no entry belongs to another generation
    have hnone := any_generation_eq_false id hi.pending hstale
    simp only [step, Hub.removePending, hnone, Bool.false_eq_true, if_false]
  | removeView g id code =>
    obtain rfl := Option.some.inj ha
    have hnone := any_generation_eq_false id hi.views hstale
    simp only [step, Hub.removeView, hnone, Bool.false_eq_true, if_false]
  | removeUpload g id =>
    obtain rfl := Option.some.inj ha
    simp only [step, Hub.removeUpload]
    split
    · rfl
    · rename_i upload hu
      rw [if_neg]
      intro heq
      -- an upload belongs to the served generation
      rw [beq_iff_eq] at heq
      exact hstale (heq ▸ hi.uploads id upload hu)
  | submit g body =>
    obtain rfl := Option.some.inj ha
    obtain ⟨e, hpeer⟩ := hpeer
    simp only [step, Hub.submit, hpeer]
  | cleanup g body =>
    obtain rfl := Option.some.inj ha
    obtain ⟨e, hpeer⟩ := hpeer
    simp only [step, Hub.cleanup, hpeer]
  | dispatch g envelope moment =>
    obtain rfl := Option.some.inj ha
    exact hdispatch envelope moment
  | readJson g message =>
    simp only [step]
    split <;> rfl
  | dispatchJson g moment =>
    obtain rfl := Option.some.inj ha
    simp only [step]
    split
    · rfl
    · split
      · rfl
      · exact hdispatch _ moment

/-! ### Ids

The ids of a run are in the order of the counter. -/

/-- The ids handed out are different, and none is ahead of the counter. -/
structure Ids (w : World codec) : Prop where
  nodup : w.issued.Nodup
  bounded : ∀ id ∈ w.issued, ∃ g n : UInt64,
    id = Hub.idText g n ∧ n.toNat ≤ w.hub.state.nextId.toNat

/-- An identifier that was given out has a smaller number than the next one. -/
theorem Ids.lt_next {w : World codec} (hi : w.Ids) {next : UInt64}
    (hn : checkedSucc w.hub.state.nextId = some next) {id : String} (hid : id ∈ w.issued) :
    ∃ g n : UInt64, id = Hub.idText g n ∧ n.toNat < next.toNat := by
  have hlt := checkedSucc_some hn
  obtain ⟨g, n, heq, hle⟩ := hi.bounded id hid
  exact ⟨g, n, heq, by omega⟩

/-- The next id was never handed out. -/
theorem Ids.fresh {w : World codec} (hi : w.Ids) {next generation : UInt64}
    (hn : checkedSucc w.hub.state.nextId = some next) :
    Hub.idText generation next ∉ w.issued := by
  intro hmem
  obtain ⟨g, n, heq, hlt⟩ := hi.lt_next hn hmem
  obtain ⟨-, rfl⟩ := Hub.idText_inj heq
  omega

/-- The counter moves on, and the next id may be handed out. -/
theorem Ids.next {w w' : World codec} (hi : w.Ids) {next : UInt64} (generation : UInt64)
    (hn : checkedSucc w.hub.state.nextId = some next) (hnext : w'.hub.state.nextId = next)
    (hissued : w'.issued = w.issued ∨ w'.issued = w.issued ++ [Hub.idText generation next]) :
    w'.Ids := by
  rcases hissued with hissued | hissued
  · refine ⟨hissued ▸ hi.nodup, fun id hid => ?_⟩
    obtain ⟨g, n, heq, hlt⟩ := hi.lt_next hn (hissued ▸ hid)
    exact ⟨g, n, heq, by rw [hnext]; omega⟩
  · constructor
    · rw [hissued, List.nodup_append]
      refine ⟨hi.nodup, List.nodup_singleton _, fun a ha b hb => ?_⟩
      rw [List.mem_singleton] at hb
      rintro rfl
      exact hi.fresh hn (hb ▸ ha)
    · intro id hid
      rw [hissued, List.mem_append, List.mem_singleton] at hid
      rcases hid with hid | rfl
      · obtain ⟨g, n, heq, hlt⟩ := hi.lt_next hn hid
        exact ⟨g, n, heq, by rw [hnext]; omega⟩
      · exact ⟨generation, next, rfl, by rw [hnext]⟩

/-- **Step lemma.** Every identifier is new when it is given out. -/
theorem ids_step (hi : w.Ids) (a : Action codec) : (w.step a).Ids := by
  have hsame : ∀ w' : World codec, w'.issued = w.issued →
      w'.hub.state.nextId = w.hub.state.nextId → w'.Ids := by
    intro w' hissued hnext
    exact ⟨hissued ▸ hi.nodup, by rw [hissued, hnext]; exact hi.bounded⟩
  by_cases ha : a.quiet = true
  · obtain ⟨hk, hissued, -⟩ := quiet_step (w := w) ha
    exact hsame _ hissued hk.nextId
  cases a with
  | attach sender protocol =>
    refine hsame _ rfl ?_
    simp only [step, Hub.attach]
    split
    · rfl
    · split <;> rfl
  | detach generation reason =>
    refine hsame _ rfl ?_
    simp only [step, Hub.detachWithReason]
    split <;> rfl
  | request generation operation =>
    simp only [step, request]
    rcases w.hub.requestStart_cases generation operation with
      ⟨e, heq⟩ | ⟨next, hn, -, -, ⟨-, heq⟩ | ⟨op, -, heq⟩⟩
    · rw [heq]; exact hi
    · rw [heq]; exact hi.next generation hn rfl (Or.inl rfl)
    · rw [heq]; exact hi.next generation hn rfl (Or.inr rfl)
  | openView generation =>
    simp only [step, openView]
    rcases w.hub.openViewStart_cases generation with ⟨e, heq⟩ | ⟨next, hn, -, -, -, heq⟩
    · rw [heq]; exact hi
    · rw [heq]; exact hi.next generation hn rfl (Or.inr rfl)
  | openUpload generation =>
    simp only [step, openUpload]
    rcases w.hub.openUploadStart_cases generation with ⟨e, heq⟩ | ⟨next, hn, -, -, heq⟩
    · rw [heq]; exact hi
    · rw [heq]; exact hi.next generation hn rfl (Or.inr rfl)
  | _ => exact absurd rfl ha

/-- So they all differ in every run. -/
theorem ids_run (actions : List (Action codec)) : ((init codec).run actions).Ids := by
  induction actions using List.reverseRecOn with
  | nil => exact ⟨List.nodup_nil, fun id hid => absurd hid List.not_mem_nil⟩
  | append_singleton actions a ih =>
    rw [run, List.foldl_append]
    exact ids_step ih a

/-- A map whose entries all need a connection is empty without one. -/
theorem eq_empty_of_offline {β : Type} {m : Std.ExtTreeMap String β} {gen : β → UInt64}
    (h : ∀ (k : String) (x : β), m[k]? = some x → none = some (gen x)) : m = ∅ := by
  refine Std.ExtTreeMap.ext_getElem? fun {k} => ?_
  rw [Std.ExtTreeMap.getElem?_empty]
  cases hm : m[k]? with
  | none => rfl
  | some x => cases h k x hm

/-- **Generation isolation.** After any interleaving of connections, requests, views, uploads,
    drops and messages, with any generation on any of them: whatever is open carries the
    generation being served; without a connection nothing is open or cached; the bounds hold;
    no id was handed out twice; and a call with another generation changes nothing. -/
theorem generation_isolation (codec : Codec) (actions : List (Action codec)) :
    let w := (init codec).run actions
    let s := w.hub.state
    ((∀ (id : String) (p : Pending), s.pending[id]? = some p → s.generation? = some p.generation) ∧
      (∀ (id : String) (v : ViewState), s.views[id]? = some v → s.generation? = some v.generation) ∧
      (∀ (id : String) (u : UploadState), s.uploads[id]? = some u →
        s.generation? = some u.generation)) ∧
    (s.peer = none → s.pending = ∅ ∧ s.views = ∅ ∧ s.uploads = ∅ ∧ s.catalog = none ∧
      s.usage = (none, none) ∧ s.updated = none ∧ s.outputCap = false ∧ s.uploadCap = false) ∧
    (s.pending.size ≤ 16 ∧ s.views.size ≤ 8 ∧ s.uploads.size ≤ 2) ∧
    w.issued.Nodup ∧
    ∀ a generation, a.generation? = some generation → s.generation? ≠ some generation →
      (w.step a).hub.state = s := by
  intro w s
  have hi : Isolated s := isolated_run actions
  refine ⟨⟨hi.pending, hi.views, hi.uploads⟩, fun hnone => ?_,
    ⟨hi.pending_le, hi.views_le, hi.uploads_le⟩, (ids_run actions).nodup,
    fun a generation ha hstale => step_stale hi ha hstale⟩
  have hgen := generation?_eq_none.mpr hnone
  exact ⟨eq_empty_of_offline (hgen ▸ hi.pending), eq_empty_of_offline (hgen ▸ hi.views),
    eq_empty_of_offline (hgen ▸ hi.uploads), hi.offline hnone⟩

end World

end Hmux.Gateway
