import Hmux.Gateway.Isolation

namespace Hmux.Gateway

open Hmux.Lib Hmux.Protocol

/-!
# Gateway — the result of an upload always fits

The queue of an upload has three slots.  Progress events are refused when they would take the
last one, so the result, of which only the first is queued, always finds it free; a queue that
overflows with progress ends the upload and nothing else.

* `onUploadProgress_cases`, `onUploadResult_cases` — what the arms do;
* `UploadInv` — the invariant, one upload at a time;
* `upload_result_fits` — the statement over whole runs.
-/

/-! ### What the arms do

One lemma for progress and one for results, with all the ways in which they may end. -/

namespace Hub

variable (codec : Codec) (h : Hub)

/-- **Step lemma.** A progress event is ignored, or queued with a slot to spare, or ends the
    upload. -/
theorem onUploadProgress_cases (id : String) (event : UploadEvent) :
    h.onUploadProgress id event = (h, .ok none) ∨
    ∃ u, h.state.uploads[id]? = some u ∧ u.terminal = false ∧
      (((h.uploadQueue id).queue.length + 2 ≤ (h.uploadQueue id).capacity ∧
        h.onUploadProgress id event
          = ({ h with
                uploadQueue := Function.update h.uploadQueue id
                  { h.uploadQueue id with queue := (h.uploadQueue id).queue ++ [event] } },
              .ok none)) ∨
      h.onUploadProgress id event
        = ({ h with state := { h.state with uploads := h.state.uploads.erase id } },
            .ok (some (.uploadCancel { id })))) := by
  rw [onUploadProgress]
  cases hu : h.state.uploads[id]? with
  | none => exact Or.inl rfl
  | some u =>
    dsimp only
    split
    · exact Or.inl rfl
    rename_i hterminal
    refine Or.inr ⟨u, rfl, by simpa using hterminal, ?_⟩
    split
    · rename_i queue heq
      split at heq
      · cases heq
      · rename_i hfree
        obtain ⟨-, -, rfl⟩ := Channel.trySend_eq_some.mp heq
        rw [Channel.free] at hfree
        exact Or.inl ⟨by omega, rfl⟩
    · exact Or.inr rfl

/-- **Step lemma.** A result is ignored, or does not fit the retained bytes, or is queued, or
    finds the queue full. -/
theorem onUploadResult_cases (response : Pb.Response) (event : Pb.Response → UploadEvent) :
    h.onUploadResult codec response event = (h, .ok none) ∨
    ∃ u, h.state.uploads[response.id]? = some u ∧ u.terminal = false ∧
      ((retainResponse codec h.payloads response = none ∧
        h.onUploadResult codec response event = (h, .error .capacity)) ∨
      ((h.uploadQueue response.id).trySend (event response) = none ∧
        ∃ h' : Hub, h.onUploadResult codec response event = (h', .error .capacity)) ∨
      ∃ used queue, (h.uploadQueue response.id).trySend (event response) = some queue ∧
        h.onUploadResult codec response event
          = ({ h with
                state := { h.state with
                  uploads := h.state.uploads.insert response.id { u with terminal := true } }
                payloads := used
                uploadQueue := Function.update h.uploadQueue response.id queue }, .ok none)) := by
  rw [onUploadResult]
  cases hu : h.state.uploads[response.id]? with
  | none => exact Or.inl rfl
  | some u =>
    dsimp only
    split
    · exact Or.inl rfl
    rename_i hterminal
    refine Or.inr ⟨u, rfl, by simpa using hterminal, ?_⟩
    cases hr : retainResponse codec h.payloads response with
    | none => exact Or.inl ⟨rfl, rfl⟩
    | some used =>
      cases hs : (h.uploadQueue response.id).trySend (event response) with
      | none => exact Or.inr (Or.inl ⟨rfl, _, rfl⟩)
      | some queue => exact Or.inr (Or.inr ⟨used, queue, rfl, rfl⟩)

end Hub

/-! ### The invariant

For an upload that is open, what was queued and what was received are the events of its history,
the result is last and occurs once, and as long as there is none a slot is left for it. -/

/-- No event but the last is a result. -/
def OneResult (log : List UploadEvent) : Prop := ∀ e ∈ log.dropLast, e.isTerminal = false

/-- Whether a result was queued. -/
def hasResult (log : List UploadEvent) : Bool := log.any UploadEvent.isTerminal

theorem OneResult.append {log : List UploadEvent} (h : hasResult log = false) (e : UploadEvent) :
    OneResult (log ++ [e]) := by
  intro x hx
  rw [List.dropLast_concat] at hx
  exact Bool.eq_false_iff.mpr fun ht => by
    rw [hasResult, List.any_eq_false] at h
    exact h x hx ht

/-- A beginning of the events has at most one result, its last event. -/
theorem OneResult.sub {log returned : List UploadEvent} (h : OneResult log)
    (hpre : returned <+: log) : OneResult returned := by
  obtain ⟨rest, rfl⟩ := hpre
  intro e he
  cases hrest : rest with
  | nil =>
    rw [hrest, List.append_nil] at h
    exact h e he
  | cons x xs =>
    refine h e ?_
    rw [List.dropLast_append_of_ne_nil (by rw [hrest]; exact List.cons_ne_nil _ _)]
    exact List.mem_append_left _ (List.dropLast_subset _ he)

theorem OneResult.countP_le {log : List UploadEvent} (h : OneResult log) :
    log.countP UploadEvent.isTerminal ≤ 1 := by
  rcases List.eq_nil_or_concat log with rfl | ⟨init, last, rfl⟩
  · exact Nat.zero_le _
  · rw [OneResult, List.concat_eq_append, List.dropLast_concat] at h
    rw [List.concat_eq_append, List.countP_append, List.countP_eq_zero.mpr (by simpa using h)]
    have := List.countP_le_length (p := UploadEvent.isTerminal) (l := [last])
    simpa using this

/-- What holds of one upload: its entry in the hub, its lease and the events queued for it. -/
structure UploadInv {codec : Codec} (w : World codec) (id : String) : Prop where
  once : OneResult (w.queued id)
  entry : ∀ u : UploadState, w.hub.state.uploads[id]? = some u →
    (∃ l, w.leases id = some l ∧ l.generation = u.generation) ∧
      (w.hub.uploadQueue id).capacity = uploadEvents ∧
      (w.hub.uploadQueue id).closed = false ∧ u.terminal = hasResult (w.queued id) ∧
      (u.terminal = false → (w.hub.uploadQueue id).queue.length < uploadEvents)
  lease : ∀ l, w.leases id = some l →
    l.generation.toNat ≤ w.hub.state.nextGeneration.toNat ∧
      l.terminal = hasResult l.returned ∧ l.returned <+: w.queued id ∧
      (w.hub.state.generation? = some l.generation →
        w.queued id = l.returned ++ l.held.toList ++ (w.hub.uploadQueue id).queue)

namespace UploadInv

variable {codec : Codec} {w w' : World codec} {id : String}

/-- Entries may go, and a connection may go or come, as long as no old one comes back. -/
theorem sub (h : UploadInv w id)
    (hentry : ∀ u : UploadState, w'.hub.state.uploads[id]? = some u →
      w.hub.state.uploads[id]? = some u)
    (hqueue : w'.hub.uploadQueue id = w.hub.uploadQueue id) (hlease : w'.leases id = w.leases id)
    (hlog : w'.queued id = w.queued id)
    (hnext : w.hub.state.nextGeneration.toNat ≤ w'.hub.state.nextGeneration.toNat)
    (hgen : ∀ l, w.leases id = some l → w'.hub.state.generation? = some l.generation →
      w.hub.state.generation? = some l.generation) : UploadInv w' id where
  once := hlog ▸ h.once
  entry := fun u hu => by
    rw [hlease, hqueue, hlog]
    exact h.entry u (hentry u hu)
  lease := fun l hl => by
    rw [hlease] at hl
    obtain ⟨hle, hterm, hpre, hsplit⟩ := h.lease l hl
    rw [hqueue, hlog]
    exact ⟨Nat.le_trans hle hnext, hterm, hpre, fun hg => hsplit (hgen l hl hg)⟩

/-- Nothing about uploads and connections changed. -/
theorem same (h : UploadInv w id) (hentry : w'.hub.state.uploads = w.hub.state.uploads)
    (hqueue : w'.hub.uploadQueue = w.hub.uploadQueue) (hlease : w'.leases = w.leases)
    (hlog : w'.queued = w.queued)
    (hnext : w'.hub.state.nextGeneration = w.hub.state.nextGeneration)
    (hgen : w'.hub.state.generation? = w.hub.state.generation?) : UploadInv w' id :=
  h.sub (fun u hu => hentry ▸ hu) (by rw [hqueue]) (by rw [hlease]) (by rw [hlog])
    (by rw [hnext]) (fun l _ hg => hgen ▸ hg)

/-- An event was queued: the log grows by it, and so does what the owner has yet to take. -/
theorem push (h : UploadInv w id) {u : UploadState} (hu : w.hub.state.uploads[id]? = some u)
    (hterm : u.terminal = false) {event : UploadEvent} {u' : UploadState}
    (hgen' : u'.generation = u.generation) (hterm' : u'.terminal = event.isTerminal)
    (hroom : event.isTerminal = false →
      (w.hub.uploadQueue id).queue.length + 2 ≤ (w.hub.uploadQueue id).capacity)
    (hentry : w'.hub.state.uploads[id]? = some u')
    (hqueue : w'.hub.uploadQueue id
      = { w.hub.uploadQueue id with queue := (w.hub.uploadQueue id).queue ++ [event] })
    (hlease : w'.leases id = w.leases id) (hlog : w'.queued id = w.queued id ++ [event])
    (hnext : w'.hub.state.nextGeneration = w.hub.state.nextGeneration)
    (hgen : w'.hub.state.generation? = w.hub.state.generation?) : UploadInv w' id := by
  obtain ⟨⟨l, hl, hlgen⟩, hcap, hclosed, hres, hlen⟩ := h.entry u hu
  have hnone : hasResult (w.queued id) = false := hres ▸ hterm
  refine ⟨hlog ▸ OneResult.append hnone event, fun v hv => ?_, fun l' hl' => ?_⟩
  · rw [hentry] at hv
    obtain rfl := Option.some.inj hv
    rw [hqueue, hlease, hlog, hgen']
    refine ⟨⟨l, hl, hlgen⟩, hcap, hclosed, ?_, fun hprogress => ?_⟩
    · rw [hterm', hasResult, List.any_append, ← hasResult, hnone, Bool.false_or]
      simp
    · rw [hterm'] at hprogress
      have := hroom hprogress
      rw [hcap] at this
      simp only [List.length_append, List.length_singleton]
      omega
  · rw [hlease] at hl'
    obtain ⟨hle, hlt, hpre, hsplit⟩ := h.lease l' hl'
    rw [hqueue, hlog, hnext, hgen]
    refine ⟨hle, hlt, hpre.trans (List.prefix_append _ _), fun hg => ?_⟩
    rw [hsplit hg]
    simp only [List.append_assoc]

end UploadInv

namespace Hub

variable (codec : Codec) (h : Hub) (generation : UInt64)

theorem uploads_onResponse (response : Pb.Response) :
    (h.onResponse codec generation response).1.state.uploads = h.state.uploads ∧
      (h.onResponse codec generation response).1.uploadQueue = h.uploadQueue := by
  rw [onResponse]
  split
  · exact ⟨rfl, rfl⟩
  · dsimp only
    split
    · exact ⟨rfl, rfl⟩
    · split
      · exact ⟨rfl, rfl⟩
      · split <;> exact ⟨rfl, rfl⟩

end Hub

namespace World

variable {codec : Codec} {w : World codec} {id : String}

theorem queued_withHub {hub : Hub} (hqueue : hub.uploadQueue id = w.hub.uploadQueue id) :
    (w.withHub hub).queued id = w.queued id := by
  simp [withHub, hqueue]

/-- A result finds room. -/
theorem trySend_result (h : UploadInv w id) {u : UploadState}
    (hu : w.hub.state.uploads[id]? = some u) (hterm : u.terminal = false) (event : UploadEvent) :
    (w.hub.uploadQueue id).trySend event
      = some { w.hub.uploadQueue id with queue := (w.hub.uploadQueue id).queue ++ [event] } := by
  obtain ⟨-, hcap, hclosed, -, hlen⟩ := h.entry u hu
  exact Channel.trySend_eq_some.mpr ⟨hclosed, hcap ▸ hlen hterm, rfl⟩

theorem topic_progress {envelope : Pb.Envelope} {event : UploadEvent}
    (h : Hub.topic envelope = .progress id event) : event.isTerminal = false := by
  rw [Hub.topic] at h
  split at h
  all_goals first
    | cases h; done
    | (injection h with _ h; rw [← h]; rfl)

theorem topic_result {envelope : Pb.Envelope} {response : Pb.Response}
    {event : Pb.Response → UploadEvent} (h : Hub.topic envelope = .result response event)
    (r : Pb.Response) : (event r).isTerminal = true := by
  rw [Hub.topic] at h
  split at h
  all_goals first
    | cases h; done
    | (injection h with _ h; rw [← h]; rfl)

/-- A message queued an event for one upload: that one moves on, the others stay. -/
theorem uploadInv_push (h : ∀ id, UploadInv w id) {generation : UInt64}
    {envelope : Pb.Envelope} {moment : Moment} {hub : Hub} {id' : String}
    {u u' : UploadState} {event : UploadEvent} (hu : w.hub.state.uploads[id']? = some u)
    (hterm : u.terminal = false) (hgen' : u'.generation = u.generation)
    (hterm' : u'.terminal = event.isTerminal)
    (hroom : event.isTerminal = false →
      (w.hub.uploadQueue id').queue.length + 2 ≤ (w.hub.uploadQueue id').capacity)
    (hentry : hub.state.uploads[id']? = some u')
    (hothers : ∀ k : String, k ≠ id' → hub.state.uploads[k]? = w.hub.state.uploads[k]?)
    (hqueue : hub.uploadQueue = Function.update w.hub.uploadQueue id'
      { w.hub.uploadQueue id' with queue := (w.hub.uploadQueue id').queue ++ [event] })
    (hnext : hub.state.nextGeneration = w.hub.state.nextGeneration)
    (hgen : hub.state.generation? = w.hub.state.generation?)
    (hhub : (w.hub.dispatchLocked codec generation envelope moment).1 = hub) :
    UploadInv (w.dispatch generation envelope moment) id := by
  subst hhub
  by_cases hid : id = id'
  · subst hid
    refine (h id).push hu hterm hgen' hterm' hroom hentry ?_ rfl ?_ hnext hgen
    · simp only [dispatch, withHub, hqueue, Function.update_self]
    · simp only [dispatch, withHub, hqueue, Function.update_self, List.drop_left]
  · refine (h id).sub (fun v hv => ?_) ?_ rfl ?_
      (Nat.le_of_eq (congrArg UInt64.toNat hnext.symm)) (fun l _ hg => hgen ▸ hg)
    · rw [← hothers id hid]
      exact hv
    · simp only [dispatch, withHub, hqueue, Function.update_of_ne hid]
    · exact queued_withHub (by rw [hqueue, Function.update_of_ne hid])

/-- **Step lemma.** A message keeps the invariant of every upload. -/
theorem uploadInv_dispatch (h : ∀ id, UploadInv w id) (generation : UInt64)
    (envelope : Pb.Envelope) (moment : Moment) :
    UploadInv (w.dispatch generation envelope moment) id := by
  have hk := w.hub.kept_dispatchLocked codec generation envelope moment
  have htopic := w.hub.dispatchLocked_topic codec generation envelope moment
  -- the hub moved without touching uploads or queues
  have hsame : ∀ hub : Hub, (w.hub.dispatchLocked codec generation envelope moment).1 = hub →
      hub.state.uploads = w.hub.state.uploads → hub.uploadQueue = w.hub.uploadQueue →
      UploadInv (w.dispatch generation envelope moment) id := by
    rintro hub rfl huploads hqueue
    refine (h id).same huploads hqueue rfl ?_ hk.nextGeneration hk.generation
    funext id'
    exact queued_withHub (congrFun hqueue id')
  cases ht : Hub.topic envelope with
  | other =>
    rw [ht] at htopic
    exact hsame _ rfl htopic.uploads htopic.uploadQueue
  | answer response =>
    rw [ht] at htopic
    dsimp only at htopic
    split at htopic
    · exact hsame w.hub (by rw [htopic]) rfl rfl
    · obtain ⟨huploads, hqueue⟩ := w.hub.uploads_onResponse codec generation response
      exact hsame _ (by rw [htopic]) huploads hqueue
  | progress id' event =>
    rw [ht] at htopic
    dsimp only at htopic
    split at htopic
    · exact hsame w.hub (by rw [htopic]) rfl rfl
    -- progress is for nobody, is queued, or finds no room and drops the upload
    rcases w.hub.onUploadProgress_cases id' event with
      heq | ⟨u, hu, hterm, ⟨hroom, heq⟩ | heq⟩
    · exact hsame w.hub (by rw [htopic, heq]) rfl rfl
    · rw [heq] at htopic
      refine uploadInv_push h hu hterm rfl (topic_progress ht ▸ hterm) (fun _ => hroom) ?_ ?_ ?_
        hk.nextGeneration hk.generation rfl
      · rw [htopic]; exact hu
      · intro k hk'
        rw [htopic]
      · rw [htopic]
    · rw [heq] at htopic
      refine (h id).sub (fun u' hu' => ?_) ?_ rfl ?_
        (Nat.le_of_eq (congrArg UInt64.toNat hk.nextGeneration.symm))
        (fun l _ hg => hk.generation ▸ hg)
      · simp only [dispatch, withHub, htopic] at hu'
        exact getElem?_of_erase hu'
      · simp only [dispatch, withHub, htopic]
      · exact queued_withHub (by rw [htopic])
  | result response event =>
    rw [ht] at htopic
    dsimp only at htopic
    split at htopic
    · exact hsame w.hub (by rw [htopic]) rfl rfl
    -- a result is for nobody or ends the upload; its place in the queue is kept free for it
    rcases w.hub.onUploadResult_cases codec response event with
      heq | ⟨u, hu, hterm, ⟨-, heq⟩ | ⟨hfull, -⟩ | ⟨used, queue, hs, heq⟩⟩
    · exact hsame w.hub (by rw [htopic, heq]) rfl rfl
    · exact hsame w.hub (by rw [htopic, heq]) rfl rfl
    · rw [trySend_result (h response.id) hu hterm] at hfull
      cases hfull
    · rw [trySend_result (h response.id) hu hterm, Option.some.injEq] at hs
      subst hs
      rw [heq] at htopic
      refine uploadInv_push h hu hterm (show ({ u with terminal := true } :
        UploadState).generation = u.generation from rfl)
        (topic_result ht response).symm (fun hf => ?_) ?_ ?_ ?_ hk.nextGeneration hk.generation
        rfl
      · rw [topic_result ht response] at hf
        cases hf
      · rw [htopic]
        exact Std.ExtTreeMap.getElem?_insert_self
      · intro k hk'
        rw [htopic]
        simp only [Std.ExtTreeMap.getElem?_insert, Std.compare_eq_iff_eq]
        exact if_neg fun h => hk' h.symm
      · rw [htopic]

variable (codec) in
theorem uploads_cleanup (hub : Hub) (generation : UInt64) (body : Pb.EnvelopeBody) :
    (hub.cleanup codec generation body).state.uploads = hub.state.uploads ∧
      (hub.cleanup codec generation body).uploadQueue = hub.uploadQueue := by
  rw [Hub.cleanup]
  split
  · exact ⟨rfl, rfl⟩
  · split
    · exact ⟨rfl, rfl⟩
    · split <;> exact ⟨rfl, rfl⟩

variable (codec) in
theorem uploads_submit (hub : Hub) (generation : UInt64) (body : Pb.EnvelopeBody) :
    (hub.submit codec generation body).1.state.uploads = hub.state.uploads ∧
      (hub.submit codec generation body).1.uploadQueue = hub.uploadQueue := by
  rw [Hub.submit]
  split
  · exact ⟨rfl, rfl⟩
  · dsimp only
    split
    · exact ⟨rfl, rfl⟩
    · split
      · exact ⟨rfl, rfl⟩
      · split
        · split <;> exact ⟨rfl, rfl⟩
        · split <;> exact ⟨rfl, rfl⟩

theorem removeUpload_frame (hub : Hub) (generation : UInt64) (k : String) :
    (hub.removeUpload generation k).1.uploadQueue = hub.uploadQueue ∧
      ∀ (k' : String) (u : UploadState),
        (hub.removeUpload generation k).1.state.uploads[k']? = some u →
          hub.state.uploads[k']? = some u ∧ ¬(k' = k ∧ u.generation = generation) := by
  rw [Hub.removeUpload]
  split
  · rename_i hnone
    refine ⟨rfl, fun k' u hu => ⟨hu, ?_⟩⟩
    rintro ⟨rfl, -⟩
    rw [hnone] at hu
    cases hu
  · rename_i upload hsome
    split
    · refine ⟨rfl, fun k' u hu => ⟨getElem?_of_erase hu, ?_⟩⟩
      rintro ⟨rfl, -⟩
      rw [Std.ExtTreeMap.getElem?_erase_self] at hu
      cases hu
    · rename_i hne
      refine ⟨rfl, fun k' u hu => ⟨hu, ?_⟩⟩
      rintro ⟨rfl, hgen⟩
      rw [hsome, Option.some.injEq] at hu
      subst hu
      exact hne (by rw [beq_iff_eq]; exact hgen)

/-- A new upload starts with an empty queue and log. -/
theorem uploadInv_open {w' : World codec} {generation : UInt64}
    (hmax : generation.toNat ≤ w'.hub.state.nextGeneration.toNat)
    (hentry : w'.hub.state.uploads[id]? = some { generation, terminal := false })
    (hqueue : w'.hub.uploadQueue id = Channel.new uploadEvents)
    (hlease : w'.leases id
      = some { generation, terminal := false, held := none, returned := [] })
    (hlog : w'.queued id = []) : UploadInv w' id where
  once := fun e he => by rw [hlog] at he; cases he
  entry := fun u hu => by
    rw [hentry] at hu
    obtain rfl := Option.some.inj hu
    rw [hqueue, hlog]
    exact ⟨⟨_, hlease, rfl⟩, rfl, rfl, rfl, fun _ => by decide⟩
  lease := fun l hl => by
    rw [hlease] at hl
    obtain rfl := Option.some.inj hl
    rw [hqueue, hlog]
    exact ⟨hmax, rfl, List.prefix_refl _, fun _ => rfl⟩

/-- The generation being served is the last one handed out. -/
def Current (w : World codec) : Prop :=
  ∀ generation, w.hub.state.generation? = some generation →
    generation.toNat ≤ w.hub.state.nextGeneration.toNat

theorem current_step (h : w.Current) (a : Action codec) : (w.step a).Current := by
  have hsame : ∀ w' : World codec, w'.hub.state.generation? = w.hub.state.generation? →
      w'.hub.state.nextGeneration = w.hub.state.nextGeneration → w'.Current := by
    intro w' hgen hnext generation hg
    rw [hnext]
    exact h generation (hgen ▸ hg)
  -- most actions leave the generation alone
  by_cases ha : a.quiet = true
  · have hk := (quiet_step (w := w) ha).1
    exact hsame _ hk.generation hk.nextGeneration
  cases a with
  | attach sender protocol =>
    simp only [step, Hub.attach]
    split
    · exact h
    · split
      · exact h
      -- the peer that comes gets the number just handed out
      · intro generation hg
        simp only [State.generation?, Option.map_some, Option.some.injEq] at hg
        subst hg
        exact Nat.le_refl _
  | detach generation reason =>
    simp only [step, Hub.detachWithReason]
    split
    · exact h
    · intro g hg
      cases hg
  | request generation operation =>
    simp only [step]
    -- requests, views and uploads are entered under the generation that is served
    rcases w.hub.requestStart_cases generation operation with
      ⟨e, heq⟩ | ⟨next, -, -, -, ⟨-, heq⟩ | ⟨op, -, heq⟩⟩
    all_goals
      refine hsame _ ?_ ?_
      · rw [hub_request, heq] <;> rfl
      · rw [hub_request, heq]
  | openView generation =>
    simp only [step]
    rcases w.hub.openViewStart_cases generation with ⟨e, heq⟩ | ⟨next, -, -, -, -, heq⟩
    all_goals
      refine hsame _ ?_ ?_
      · rw [hub_openView, heq] <;> rfl
      · rw [hub_openView, heq]
  | openUpload generation =>
    simp only [step]
    rcases w.hub.openUploadStart_cases generation with ⟨e, heq⟩ | ⟨next, -, -, -, heq⟩
    all_goals
      refine hsame _ ?_ ?_
      · rw [hub_openUpload, heq] <;> rfl
      · rw [hub_openUpload, heq]
  | _ => exact absurd rfl ha

/-- `UploadLease::receive` takes the next event: it moves from the queue to the lease. -/
theorem uploadInv_receive (h : ∀ id, UploadInv w id) (k : String) :
    UploadInv (w.receive k) id := by
  rw [receive]
  split
  · exact h id
  rename_i lease hlease
  split
  · exact h id
  rename_i hidle
  simp only [Bool.or_eq_true, not_or, Option.not_isSome_iff_eq_none] at hidle
  split
  · rename_i peer event queue hpeer hrecv
    obtain ⟨rest, hq, rfl⟩ := Channel.recv_eq_some.mp hrecv
    by_cases hid : id = k
    · subst hid
      have hi := h id
      obtain ⟨hle, hterm, hpre, hsplit⟩ := hi.lease lease hlease
      -- the event moves from the queue to the lease, so the log stays split at the same place
      refine ⟨hi.once, fun u hu => ?_, fun l hl => ?_⟩
      · obtain ⟨⟨l, hl, hgen⟩, hcap, hclosed, hres, hlen⟩ := hi.entry u hu
        simp only [Function.update_self]
        rw [hlease, Option.some.injEq] at hl
        subst hl
        -- there is one more free place than before
        refine ⟨⟨_, rfl, hgen⟩, hcap, hclosed, hres, fun ht => ?_⟩
        have := hlen ht
        rw [hq, List.length_cons] at this
        omega
      · simp only [Function.update_self, Option.some.injEq] at hl ⊢
        subst hl
        refine ⟨hle, hterm, hpre, fun hg => ?_⟩
        rw [hsplit hg, hidle.2, hq]
        simp
    · refine (h id).sub (fun u hu => hu) ?_ ?_ rfl (Nat.le_refl _) (fun l _ hg => hg)
      · simp only [Function.update_of_ne hid]
      · simp only [Function.update_of_ne hid]
  · exact h id

/-- `UploadLease::receive` returns the event it holds, or drops it on a connection that is
    gone. -/
theorem uploadInv_take (h : ∀ id, UploadInv w id) (k : String) : UploadInv (w.take k) id := by
  rw [take]
  split
  · exact h id
  rename_i lease hlease
  split
  · exact h id
  rename_i event hheld
  by_cases hid : id = k
  · subst hid
    have hi := h id
    obtain ⟨hle, hterm, hpre, hsplit⟩ := hi.lease lease hlease
    -- the entry of the upload only asks for the lease and its generation
    have hentry : ∀ lease' : UploadLease, lease'.generation = lease.generation →
        ∀ u : UploadState, w.hub.state.uploads[id]? = some u →
        (∃ l, Function.update w.leases id (some lease') id = some l ∧
          l.generation = u.generation) ∧
        (w.hub.uploadQueue id).capacity = uploadEvents ∧
        (w.hub.uploadQueue id).closed = false ∧ u.terminal = hasResult (w.queued id) ∧
        (u.terminal = false → (w.hub.uploadQueue id).queue.length < uploadEvents) := by
      intro lease' hgen' u hu
      obtain ⟨⟨l, hl, hgen⟩, hrest⟩ := hi.entry u hu
      rw [hlease, Option.some.injEq] at hl
      subst hl
      exact ⟨⟨lease', by rw [Function.update_self], hgen'.trans hgen⟩, hrest⟩
    split
    · rename_i e hpeer
      refine ⟨hi.once, hentry _ rfl, fun l hl => ?_⟩
      simp only [Function.update_self, Option.some.injEq] at hl
      subst hl
      refine ⟨hle, hterm, hpre, fun hg => ?_⟩
      -- a generation that is served has a peer
      have hg' : w.hub.state.generation? = some lease.generation := hg
      rw [Hub.peer] at hpeer
      rw [State.generation?, Option.map_eq_some_iff] at hg'
      obtain ⟨p, hp, hpgen⟩ := hg'
      rw [hp] at hpeer
      simp only [hpgen, ne_eq, not_true_eq_false, if_false] at hpeer
      cases hpeer
    · rename_i peer hpeer
      obtain ⟨hp, hpgen⟩ := w.hub.peer_eq_ok lease.generation hpeer
      have hserved : w.hub.state.generation? = some lease.generation := by
        rw [State.generation?, hp, Option.map_some, hpgen]
      have hlog := hsplit hserved
      rw [hheld] at hlog
      simp only [Option.toList_some] at hlog
      refine ⟨hi.once, hentry _ rfl, fun l hl => ?_⟩
      simp only [Function.update_self, Option.some.injEq] at hl
      subst hl
      refine ⟨hle, ?_, ?_, fun _ => ?_⟩
      · simp only [hasResult, List.any_append, List.any_cons, List.any_nil,
          Bool.or_false] at hterm ⊢
        rw [hterm]
      · exact hlog ▸ List.prefix_append _ _
      · simpa using hlog
  -- other leases are as they were
  · have hne : ∀ lease', UploadInv
        { w with leases := Function.update w.leases k (some lease') } id := fun lease' =>
      (h id).sub (fun u hu => hu) rfl (by simp only [Function.update_of_ne hid]) rfl
        (Nat.le_refl _) (fun l _ hg => hg)
    split
    · exact hne _
    · exact hne _

/-- **Step lemma.** Every critical section keeps the invariant of every upload. -/
theorem uploadInv_step (hc : w.Current) (h : ∀ id, UploadInv w id) (a : Action codec)
    (id : String) : UploadInv (w.step a) id := by
  -- the sections that leave uploads alone
  have hquiet : a.quiet = true → (w.step a).hub.state.uploads = w.hub.state.uploads →
      (w.step a).hub.uploadQueue = w.hub.uploadQueue → (w.step a).leases = w.leases →
      (w.step a).queued = w.queued → UploadInv (w.step a) id := by
    intro ha huploads hqueue hleases hlog
    have hk := (quiet_step (w := w) ha).1
    exact (h id).same huploads hqueue hleases hlog hk.nextGeneration hk.generation
  cases a with
  | attach sender protocol =>
    simp only [step, Hub.attach]
    split
    · exact h id
    · split
      · exact h id
      · rename_i next hn
        have hlt := checkedSucc_some hn
        refine (h id).sub (fun u hu => hu) rfl rfl rfl (by simp only; omega) ?_
        intro l hl hg
        -- the new generation is above every lease
        have hle := ((h id).lease l hl).1
        simp only [State.generation?, Option.map_some, Option.some.injEq] at hg
        rw [← hg] at hle
        omega
  | detach generation reason =>
    simp only [step, Hub.detachWithReason]
    split
    · exact h id
    · refine (h id).sub (fun u hu => ?_) rfl rfl rfl (Nat.le_refl _) (fun l _ hg => ?_)
      · rw [Std.ExtTreeMap.getElem?_empty] at hu
        cases hu
      · cases hg
  | request generation operation =>
    simp only [step, request]
    -- a request touches no upload
    rcases w.hub.requestStart_cases generation operation with
      ⟨e, heq⟩ | ⟨next, -, -, -, ⟨-, heq⟩ | ⟨op, -, heq⟩⟩
    all_goals
      rw [heq]
      exact (h id).same rfl rfl rfl rfl rfl rfl
  | openView generation =>
    simp only [step, openView]
    rcases w.hub.openViewStart_cases generation with ⟨e, heq⟩ | ⟨next, -, -, -, -, heq⟩
    all_goals
      rw [heq]
      exact (h id).same rfl rfl rfl rfl rfl rfl
  | openUpload generation =>
    simp only [step, openUpload]
    rcases w.hub.openUploadStart_cases generation with ⟨e, heq⟩ | ⟨next, -, hserved, -, heq⟩
    · rw [heq]
      exact h id
    · rw [heq]
      -- the new upload is empty, all the others stay
      by_cases hid : id = Hub.idText generation next
      · subst hid
        refine uploadInv_open (hc generation hserved) ?_ ?_ ?_ ?_
        · exact Std.ExtTreeMap.getElem?_insert_self
        · simp only [issue, Function.update_self]
        · simp only [issue, Function.update_self]
        · simp only [issue, Function.update_self]
      · refine (h id).sub (fun u hu => ?_) ?_ ?_ ?_ (Nat.le_refl _) (fun l _ hg => hg)
        · simp only [issue, Std.ExtTreeMap.getElem?_insert, Std.compare_eq_iff_eq] at hu
          rwa [if_neg fun h => hid h.symm] at hu
        · simp only [issue, Function.update_of_ne hid]
        · simp only [issue, Function.update_of_ne hid]
        · simp only [issue, Function.update_of_ne hid]
  | removePending generation k =>
    refine hquiet rfl ?_ ?_ rfl rfl
    · simp only [step, Hub.removePending]; split <;> rfl
    · simp only [step, Hub.removePending]; split <;> rfl
  | removeView generation k code =>
    refine hquiet rfl ?_ ?_ rfl rfl
    · simp only [step, Hub.removeView]; split <;> rfl
    · simp only [step, Hub.removeView]; split <;> rfl
  | removeUpload generation k =>
    obtain ⟨hqueue, hsub⟩ := removeUpload_frame w.hub generation k
    have hk := w.hub.kept_removeUpload generation k
    exact (h id).sub (fun u hu => (hsub id u hu).1) (by rw [step, hqueue]) rfl rfl
      (Nat.le_of_eq (congrArg UInt64.toNat hk.nextGeneration.symm))
      (fun l _ hg => hk.generation ▸ hg)
  | dropLease k =>
    simp only [step, dropLease]
    -- an upload goes with its lease
    split
    · exact h id
    rename_i lease hlease
    obtain ⟨hqueue, hsub⟩ := removeUpload_frame w.hub lease.generation k
    have hk := w.hub.kept_removeUpload lease.generation k
    by_cases hid : id = k
    · subst hid
      refine ⟨(h id).once, fun u hu => ?_, fun l hl => ?_⟩
      · -- the entry carried the generation of the lease and went with it
        obtain ⟨hold, hnot⟩ := hsub id u hu
        obtain ⟨⟨l, hl, hgen⟩, -⟩ := (h id).entry u hold
        rw [hlease, Option.some.injEq] at hl
        subst hl
        exact absurd ⟨rfl, hgen.symm⟩ hnot
      · simp only [Function.update_self] at hl
        cases hl
    · refine (h id).sub (fun u hu => (hsub id u hu).1) ?_ ?_ rfl
        (Nat.le_of_eq (congrArg UInt64.toNat hk.nextGeneration.symm))
        (fun l _ hg => hk.generation ▸ hg)
      · simp only [Function.update_of_ne hid, hqueue]
      · simp only [Function.update_of_ne hid]
  | submit generation body =>
    obtain ⟨huploads, hqueue⟩ := uploads_submit codec w.hub generation body
    exact hquiet rfl huploads hqueue rfl rfl
  | cleanup generation body =>
    obtain ⟨huploads, hqueue⟩ := uploads_cleanup codec w.hub generation body
    exact hquiet rfl huploads hqueue rfl rfl
  | written =>
    refine hquiet rfl ?_ ?_ ?_ ?_
    all_goals simp only [step]; split <;> rfl
  | release n => exact hquiet rfl rfl rfl rfl rfl
  | consume =>
    refine hquiet rfl ?_ ?_ ?_ ?_
    all_goals simp only [step]; split <;> rfl
  | popView k =>
    refine hquiet rfl ?_ ?_ ?_ ?_
    all_goals simp only [step]; split <;> rfl
  | uncountView k => exact hquiet rfl rfl rfl rfl rfl
  | dispatch generation envelope moment => exact uploadInv_dispatch h generation envelope moment
  | readJson generation message =>
    refine hquiet rfl ?_ ?_ ?_ ?_
    all_goals simp only [step]; split <;> rfl
  | dispatchJson generation moment =>
    simp only [step]
    split
    · exact h id
    · have hidle : ∀ id, UploadInv
          { w with readers := Function.update w.readers generation none } id :=
        fun id => (h id).same rfl rfl rfl rfl rfl rfl
      split
      · exact hidle id
      · exact uploadInv_dispatch hidle generation _ moment
  | receive k => exact uploadInv_receive h k
  | take k => exact uploadInv_take h k

/-- **Run lemma.** -/
theorem uploadInv_run (actions : List (Action codec)) :
    ((init codec).run actions).Current ∧ ∀ id, UploadInv ((init codec).run actions) id := by
  induction actions using List.reverseRecOn with
  | nil =>
    refine ⟨fun generation hg => (by cases hg), fun id => ⟨fun e he => (by cases he), ?_, ?_⟩⟩
    · intro u hu
      simp [init, Hub.new, run] at hu
    · intro l hl
      cases hl
  | append_singleton actions a ih =>
    rw [run, List.foldl_append]
    exact ⟨current_step ih.1 a, uploadInv_step ih.1 ih.2 a⟩

/-- What is left of the connection after a control frame: it is on its way, or it could not be
    encoded or queued and the connection is closed. -/
theorem cleanup_peer {hub : Hub} {peer : Peer} (hp : hub.state.peer = some peer)
    (body : Pb.EnvelopeBody) :
    (∃ raw, codec.encode peer.protocol { version := 2, body := some body } = some raw ∧
      peer.sender.tryReserve raw.length = .ok () ∧
      hub.cleanup codec peer.generation body
        = hub.withSender peer (peer.sender.submit raw.length body)) ∨
    ((∀ raw, codec.encode peer.protocol { version := 2, body := some body } = some raw →
        peer.sender.tryReserve raw.length ≠ .ok ()) ∧
      hub.cleanup codec peer.generation body = hub.withSender peer peer.sender.close) := by
  have hpeer : hub.peer peer.generation = .ok peer := by
    simp only [Hub.peer, hp, ne_eq, not_true_eq_false, if_false]
  rw [Hub.cleanup, hpeer]
  dsimp only
  cases henc : codec.encode peer.protocol { version := 2, body := some body } with
  | none => exact Or.inr ⟨fun raw h => (by cases h), rfl⟩
  | some raw =>
    cases hres : peer.sender.tryReserve raw.length with
    | error e =>
      refine Or.inr ⟨fun raw' h => ?_, by simp only [hres]⟩
      rw [← Option.some.inj h, hres]
      exact fun h => by cases h
    | ok _ => exact Or.inl ⟨raw, rfl, hres, by simp only [hres]⟩

variable (codec) in
/-- **Progress.** A progress event on the served connection is never an error.  It changes the
    queue of its upload at most, or, when it overflows it, ends that upload in the hub and asks
    for one control frame. -/
theorem dispatch_progress {hub : Hub} {generation : UInt64} {envelope : Pb.Envelope}
    {event : UploadEvent} (ht : Hub.topic envelope = .progress id event)
    (hserved : hub.state.generation? = some generation) (moment : Moment) :
    (∃ queue, hub.dispatch codec generation envelope moment
      = ({ hub with uploadQueue := Function.update hub.uploadQueue id queue }, .ok ())) ∨
    hub.dispatch codec generation envelope moment
      = (({ hub with
            state := { hub.state with uploads := hub.state.uploads.erase id } } : Hub).cleanup
          codec generation (.uploadCancel { id }), .ok ()) := by
  have htopic := hub.dispatchLocked_topic codec generation envelope moment
  rw [ht] at htopic
  dsimp only at htopic
  rw [if_neg (not_not.mpr hserved)] at htopic
  rw [Hub.dispatch, htopic]
  rcases hub.onUploadProgress_cases id event with heq | ⟨u, hu, hterm, ⟨hroom, heq⟩ | heq⟩
  · rw [heq]
    exact Or.inl ⟨hub.uploadQueue id, by rw [Function.update_eq_self]⟩
  · rw [heq]
    exact Or.inl ⟨_, rfl⟩
  · rw [heq]
    exact Or.inr rfl

/-- **The result fits.** After any interleaving of progress and result messages, in any order
    and number, with receives, drops and everything else the hub does:
    the queue of an upload without a result has room for one, so a result message is an error
    only on a connection that is not served or when the answer exceeds the retained bytes;
    at most one result is ever queued for an upload and nothing after it; a lease returns the
    queued events in order, and nothing after a result;
    and a progress message on the served connection is never an error: if it overflows the
    queue it ends that upload in the hub and nothing else, and Home is sent one cancellation,
    unless that frame cannot be encoded or queued, which closes the connection. -/
theorem upload_result_fits (codec : Codec) (actions : List (Action codec)) :
    let w := (init codec).run actions
    (∀ (id : String) (u : UploadState) (event : UploadEvent),
      w.hub.state.uploads[id]? = some u → u.terminal = false →
      ((w.hub.uploadQueue id).trySend event).isSome) ∧
    (∀ generation envelope moment response event e,
      Hub.topic envelope = .result response event →
      (w.hub.dispatchLocked codec generation envelope moment).2 = .error e →
      (w.hub.state.generation? ≠ some generation ∧ e = .stale) ∨
        (Hub.retainResponse codec w.hub.payloads response = none ∧ e = .capacity)) ∧
    (∀ id, (w.queued id).countP UploadEvent.isTerminal ≤ 1 ∧
      ∀ e ∈ (w.queued id).dropLast, e.isTerminal = false) ∧
    (∀ id l, w.leases id = some l → l.returned <+: w.queued id ∧
      (∀ e ∈ l.returned.dropLast, e.isTerminal = false) ∧
      ((∃ e ∈ l.returned, e.isTerminal = true) → w.receive id = w)) ∧
    (∀ generation envelope moment id event peer,
      Hub.topic envelope = .progress id event → w.hub.state.peer = some peer →
      peer.generation = generation →
      let r := w.hub.dispatch codec generation envelope moment
      let cancelled : Hub := { w.hub with
        state := { w.hub.state with uploads := w.hub.state.uploads.erase id } }
      r.2 = .ok () ∧
      ((∃ queue, r.1 = { w.hub with
          uploadQueue := Function.update w.hub.uploadQueue id queue }) ∨
        (∃ raw, codec.encode peer.protocol { version := 2, body := some (.uploadCancel { id }) }
            = some raw ∧
          peer.sender.tryReserve raw.length = .ok () ∧
          r.1 = cancelled.withSender peer
            (peer.sender.submit raw.length (.uploadCancel { id }))) ∨
        ((∀ raw, codec.encode peer.protocol { version := 2, body := some (.uploadCancel { id }) }
            = some raw → peer.sender.tryReserve raw.length ≠ .ok ()) ∧
          r.1 = cancelled.withSender peer peer.sender.close))) := by
  intro w
  have h : ∀ id, UploadInv w id := (uploadInv_run actions).2
  refine ⟨fun id u event hu hterm => ?_, ?_, fun id => ⟨(h id).once.countP_le, (h id).once⟩,
    fun id l hl => ?_, ?_⟩
  -- the place of the result is kept free
  · rw [trySend_result (h id) hu hterm]
    rfl
  -- an answer fails when it comes too late or is too large to keep
  · intro generation envelope moment response event e ht he
    have htopic := w.hub.dispatchLocked_topic codec generation envelope moment
    rw [ht] at htopic
    dsimp only at htopic
    rw [htopic] at he
    split at he
    · rename_i hstale
      injection he with he
      exact Or.inl ⟨hstale, he.symm⟩
    · rcases w.hub.onUploadResult_cases codec response event with
        heq | ⟨u, hu, hterm, ⟨hfull, heq⟩ | ⟨hqueue, -⟩ | ⟨used, queue, -, heq⟩⟩
      · rw [heq] at he
        cases he
      · rw [heq] at he
        injection he with he
        exact Or.inr ⟨hfull, he.symm⟩
      · rw [trySend_result (h response.id) hu hterm] at hqueue
        cases hqueue
      · rw [heq] at he
        cases he
  -- what a lease returned is the beginning of what was queued
  · obtain ⟨-, hterm, hpre, -⟩ := (h id).lease l hl
    refine ⟨hpre, (h id).once.sub hpre, fun ⟨e, he, ht⟩ => ?_⟩
    have hdone : l.terminal = true := by
      rw [hterm, hasResult, List.any_eq_true]
      exact ⟨e, he, ht⟩
    simp only [receive, hl, hdone, Bool.true_or, if_true]
  -- progress is queued, or its upload is dropped and Home told so
  · intro generation envelope moment id event peer ht hpeer hgen r cancelled
    subst hgen
    have hserved : w.hub.state.generation? = some peer.generation := by
      rw [State.generation?, hpeer, Option.map_some]
    rcases dispatch_progress codec ht hserved moment with ⟨queue, heq⟩ | heq
    · exact ⟨congrArg Prod.snd heq, Or.inl ⟨queue, congrArg Prod.fst heq⟩⟩
    · refine ⟨congrArg Prod.snd heq, Or.inr ?_⟩
      have hr : r.1 = cancelled.cleanup codec peer.generation (.uploadCancel { id }) :=
        congrArg Prod.fst heq
      rw [hr]
      exact cleanup_peer (show cancelled.state.peer = some peer from hpeer) _

namespace UploadsExample

/-- A frame whose body is a reference, in the protobuf encoding. -/
def frame (key : UInt8) (id : String) : List UInt8 :=
  let n := UInt8.ofNat (bytes id).length
  [8, 2, key, 1, n + 2, 10, n] ++ bytes id

/-- Refreshes and cancellations are encoded; nothing else is needed here. -/
def encode (envelope : Pb.Envelope) : Option (List UInt8) :=
  match envelope.body with
  | some (.refresh r) => some (frame 170 r.id)
  | some (.uploadCancel r) => some (frame 242 r.id)
  | _ => none

/-- The codec of the example. -/
def exampleCodec : Codec :=
  { encode := fun _ => encode
    encodedLen := fun envelope => ((encode envelope).getD []).length
    catalogPayload := fun _ => none, usagePayload := fun _ => none
    Message := Empty, kind := fun m => m.elim, id := fun m => m.elim
    fromJson := fun _ _ => none, responseRetainedBytes := fun _ => 0
    allocate := some, parseTime := fun _ => none }

/-- A message of Home. -/
def message (body : Pb.EnvelopeBody) : Pb.Envelope := { version := 2, body := some body }

/-- The moment of every message. -/
def moment : Moment := { wall := DateTime.ofNanos 0, now := 0, freed := 0 }

/-- The ids of the two uploads. -/
def first : String := Hub.idText 1 1

/-- Home connects and offers uploads, two are opened, the first gets two progress events, and
    browsers refresh sixteen times while the connection is busy. -/
def busy : List (Action exampleCodec) :=
  [.attach { stopped := false, byteLimit := 4 * 1024 * 1024, jobs := [] } .protobufV2,
   .dispatch 1 (message (.hello { capabilities := [uploadCapability] })) moment,
   .openUpload 1, .openUpload 1,
   .dispatch 1 (message (.uploadReady { id := first })) moment,
   .dispatch 1 (message (.uploadAck { id := first, received := 1 })) moment] ++
  List.replicate 16 (.submit 1 (.refresh { id := "1" }))

/-- A third progress event of one upload closes the connection that also serves the other. -/
theorem overflow_closes_connection :
    let w := (init exampleCodec).run busy
    let r := w.hub.dispatch exampleCodec 1
      (message (.uploadAck { id := first, received := 2 })) moment
    w.hub.state.uploads.size = 2 ∧ w.hub.state.peer.map (fun p => p.sender.stopped) = some false ∧
      r.1.state.uploads.size = 1 ∧ r.1.state.peer.map (fun p => p.sender.stopped) = some true := by
  decide

end UploadsExample

end World

end Hmux.Gateway
