import Hmux.Gateway.Isolation

namespace Hmux.Gateway

open Hmux.Lib Hmux.Protocol

/-!
# Gateway — answers reach their own request

Requests wait under the id the hub gave them, and Home answers with that id.  Answers may come
twice, late, on another connection, with an id nobody waits under or with a result of the wrong
type; a request may be dropped while its answer is on the way.

* `Books` — what one critical section can do to the requests and the answers: requests are
  dropped, one is registered, one is answered, or all of them are hung up;
* `Correlated` — the invariant over the record of the run;
* `response_correlation` — each request is resolved at most once, with a success only by an
  answer of its own; on JSON v1 the answer is decoded with its own context.

The record of the run has every request that was registered and every answer that was delivered,
with their ids.  An id is registered once, because the counter behind it never goes back, so
whatever was delivered under it is an answer to that request.
-/

/-! ### What one message does

The hub finds a request by the id alone, forgets it, and only then checks the generation and the
type of the result. -/

namespace Hub

variable (codec : Codec) (h : Hub) (generation : UInt64)

/-- **Step lemma.** An answer to a request that does not wait changes nothing; one that waits
    is forgotten and, on its own connection, resolved. -/
theorem onResponse_cases (response : Pb.Response) :
    (h.state.pending[response.id]? = none ∧
      h.onResponse codec generation response = (h, .ok none)) ∨
    ∃ p, h.state.pending[response.id]? = some p ∧
      (h.onResponse codec generation response).1.state.pending
        = h.state.pending.erase response.id ∧
      ((p.generation ≠ generation ∧
        (h.onResponse codec generation response).1.replies = h.replies) ∨
      (p.generation = generation ∧ ∃ result,
        (h.onResponse codec generation response).1.replies
          = h.replies ++ [(response.id, result)] ∧
        ∀ r, result = .ok r → r = response ∧ responseMatches response p.context = true)) := by
  rw [onResponse]
  cases hp : h.state.pending[response.id]? with
  | none => exact Or.inl ⟨rfl, rfl⟩
  | some p =>
    refine Or.inr ⟨p, rfl, ?_⟩
    dsimp only
    split
    · rename_i hne
      exact ⟨rfl, Or.inl ⟨hne, rfl⟩⟩
    rename_i hgen
    have hgen := not_not.mp hgen
    split
    · exact ⟨rfl, Or.inr ⟨hgen, _, rfl, fun r hr => by cases hr⟩⟩
    rename_i hmatch
    split
    · exact ⟨rfl, Or.inr ⟨hgen, _, rfl, fun r hr => by cases hr⟩⟩
    · refine ⟨rfl, Or.inr ⟨hgen, _, rfl, fun r hr => ?_⟩⟩
      injection hr with hr
      exact ⟨hr.symm, by simpa using hmatch⟩

theorem answers_onUploadProgress (id : String) (event : UploadEvent) :
    (h.onUploadProgress id event).1.state.pending = h.state.pending ∧
      (h.onUploadProgress id event).1.replies = h.replies := by
  rw [onUploadProgress]
  split
  · exact ⟨rfl, rfl⟩
  · split
    · exact ⟨rfl, rfl⟩
    · dsimp only
      split <;> exact ⟨rfl, rfl⟩

theorem answers_onUploadResult (response : Pb.Response) (event : Pb.Response → UploadEvent) :
    (h.onUploadResult codec response event).1.state.pending = h.state.pending ∧
      (h.onUploadResult codec response event).1.replies = h.replies := by
  rw [onUploadResult]
  split
  · exact ⟨rfl, rfl⟩
  · split
    · exact ⟨rfl, rfl⟩
    · split
      · exact ⟨rfl, rfl⟩
      · dsimp only
        split <;> exact ⟨rfl, rfl⟩

/-- A message that is not an answer leaves the requests and the answers alone. -/
theorem answers_dispatchLocked (envelope : Pb.Envelope) (moment : Moment)
    (hno : World.responseOf envelope = none) :
    (h.dispatchLocked codec generation envelope moment).1.state.pending = h.state.pending ∧
      (h.dispatchLocked codec generation envelope moment).1.replies = h.replies := by
  have htopic := h.dispatchLocked_topic codec generation envelope moment
  rw [World.responseOf] at hno
  cases ht : topic envelope with
  | answer response => rw [ht] at hno; cases hno
  | progress id event =>
    rw [ht] at htopic
    rw [htopic]
    split
    · exact ⟨rfl, rfl⟩
    · exact h.answers_onUploadProgress id event
  | result response event =>
    rw [ht] at htopic
    rw [htopic]
    split
    · exact ⟨rfl, rfl⟩
    · exact h.answers_onUploadResult codec response event
  | other =>
    rw [ht] at htopic
    exact ⟨htopic.pending, htopic.replies⟩

end Hub

/-! ### What one critical section does

All critical sections do one of the four to requests and answers, so the invariant has four cases
and not one for every section. -/

namespace World

variable {codec : Codec} {w : World codec}

/-- What one critical section can do to the requests and the answers. -/
inductive Books (w w' : World codec) : Prop
  /-- Requests may be dropped; answers may arrive that nobody waits for. -/
  | dropped (hpending : ∀ (id : String) (p : Pending),
        w'.hub.state.pending[id]? = some p → w.hub.state.pending[id]? = some p)
      (hreplies : w'.hub.replies = w.hub.replies) (hregistered : w'.registered = w.registered)
      (hissued : ∀ id ∈ w.issued, id ∈ w'.issued) (hreceived : ∀ r ∈ w.received, r ∈ w'.received)
  /-- A request is registered under a new id. -/
  | opened (id : String) (p : Pending) (hnew : id ∉ w.issued)
      (hpending : w'.hub.state.pending = w.hub.state.pending.insert id p)
      (hreplies : w'.hub.replies = w.hub.replies)
      (hregistered : w'.registered = w.registered ++ [(id, p)])
      (hissued : w'.issued = w.issued ++ [id]) (hreceived : w'.received = w.received)
  /-- A request that waits is resolved by an answer with its id on its own connection. -/
  | answered (p : Pending) (response : Pb.Response) (result : Except HubError Pb.Response)
      (hwaits : w.hub.state.pending[response.id]? = some p)
      (hpending : w'.hub.state.pending = w.hub.state.pending.erase response.id)
      (hreplies : w'.hub.replies = w.hub.replies ++ [(response.id, result)])
      (hok : ∀ r, result = .ok r → r = response ∧ responseMatches response p.context = true)
      (hregistered : w'.registered = w.registered) (hissued : w'.issued = w.issued)
      (hreceived : w'.received = w.received ++ [(p.generation, response)])
  /-- The connection ends: everyone waiting is told so. -/
  | hungUp (reason : HubError) (hpending : w'.hub.state.pending = ∅)
      (hreplies : w'.hub.replies
        = w.hub.replies ++ w.hub.state.pending.keys.map fun id => (id, .error reason))
      (hregistered : w'.registered = w.registered) (hissued : w'.issued = w.issued)
      (hreceived : w'.received = w.received)

theorem topic_of_responseOf {envelope : Pb.Envelope} {response : Pb.Response}
    (hr : responseOf envelope = some response) : Hub.topic envelope = .answer response := by
  rw [responseOf] at hr
  split at hr
  · rename_i r heq
    rw [heq, Option.some.inj hr]
  · cases hr

theorem books_dispatch (hi : Isolated w.hub.state) (generation : UInt64)
    (envelope : Pb.Envelope) (moment : Moment) :
    Books w (w.dispatch generation envelope moment) := by
  have hsuffix : ∀ r ∈ w.received, r ∈ (w.dispatch generation envelope moment).received :=
    fun r hr => List.mem_append_left _ hr
  -- not a response, so nothing that waits is touched
  cases hr : responseOf envelope with
  | none =>
    obtain ⟨hpending, hreplies⟩ :=
      w.hub.answers_dispatchLocked codec generation envelope moment hr
    refine .dropped (fun id p hp => ?_) hreplies rfl (fun id hid => hid) hsuffix
    simp only [dispatch, withHub, hpending] at hp
    exact hp
  | some response =>
    have heq := w.hub.dispatchLocked_topic codec generation envelope moment
    rw [topic_of_responseOf hr] at heq
    dsimp only at heq
    -- from the home that is served now
    by_cases hserved : w.hub.state.generation? = some generation
    · rw [if_neg (not_not.mpr hserved)] at heq
      -- nobody waits for it, or the one that does asked this home
      rcases w.hub.onResponse_cases codec generation response with
        ⟨-, hnone⟩ | ⟨p, hwaits, hpending, hcase⟩
      · rw [hnone] at heq
        refine .dropped (fun id p hp => ?_) ?_ rfl (fun id hid => hid) hsuffix
        · simpa only [dispatch, withHub, heq] using hp
        · simp only [dispatch, withHub, heq]
      · have hgen : p.generation = generation := by
          have := hi.pending _ p hwaits
          rw [hserved] at this
          exact (Option.some.inj this).symm
        rcases hcase with ⟨hne, -⟩ | ⟨-, result, hreplies, hok⟩
        · exact absurd hgen hne
        · refine .answered p response result hwaits ?_ ?_ hok rfl rfl ?_
          · simp only [dispatch, withHub, heq, hpending]
          · simp only [dispatch, withHub, heq, hreplies]
          · simp only [dispatch, withHub, hr, hgen, Option.toList_some, List.map_cons,
              List.map_nil]
    -- from an earlier home
    · rw [if_pos hserved] at heq
      refine .dropped (fun id p hp => ?_) ?_ rfl (fun id hid => hid) hsuffix
      · simpa only [dispatch, withHub, heq] using hp
      · simp only [dispatch, withHub, heq]

/-- Sending does not answer anything. -/
theorem replies_cleanup (h : Hub) (generation : UInt64) (body : Pb.EnvelopeBody) :
    (h.cleanup codec generation body).replies = h.replies := by
  rw [Hub.cleanup]
  split
  · rfl
  · split
    · rfl
    · split <;> rfl

theorem replies_submit (h : Hub) (generation : UInt64) (body : Pb.EnvelopeBody) :
    (h.submit codec generation body).1.replies = h.replies := by
  rw [Hub.submit]
  split
  · rfl
  · dsimp only
    split
    · rfl
    · split
      · rfl
      · split
        · split <;> rfl
        · split <;> rfl

theorem replies_removeUpload (h : Hub) (generation : UInt64) (id : String) :
    (h.removeUpload generation id).1.replies = h.replies := by
  rw [Hub.removeUpload]
  split
  · rfl
  · split <;> rfl

/-- **Step lemma.** Every critical section does one of the four. -/
theorem books_step (hi : Isolated w.hub.state) (hids : w.Ids) (a : Action codec) :
    Books w (w.step a) := by
  -- a section that answers nothing and opens nothing
  have hquiet : a.quiet = true → (w.step a).hub.replies = w.hub.replies →
      (w.step a).received = w.received → Books w (w.step a) := by
    intro ha hreplies hreceived
    obtain ⟨hk, hissued, hregistered⟩ := quiet_step (w := w) ha
    exact .dropped hk.pending hreplies hregistered (fun id hid => hissued ▸ hid)
      (fun r hr => hreceived ▸ hr)
  cases a with
  | attach sender protocol =>
    simp only [step, Hub.attach]
    split
    · exact .dropped (fun _ _ hp => hp) rfl rfl (fun _ hid => hid) (fun _ hr => hr)
    · split
      · exact .dropped (fun _ _ hp => hp) rfl rfl (fun _ hid => hid) (fun _ hr => hr)
      · exact .dropped (fun _ _ hp => hp) rfl rfl (fun _ hid => hid) (fun _ hr => hr)
  | detach generation reason =>
    simp only [step, Hub.detachWithReason]
    split
    · exact .dropped (fun _ _ hp => hp) rfl rfl (fun _ hid => hid) (fun _ hr => hr)
    · exact .hungUp reason rfl rfl rfl rfl rfl
  | request generation operation =>
    simp only [step, request]
    -- a request is refused, sent without a context, or registered
    rcases w.hub.requestStart_cases generation operation with
      ⟨e, heq⟩ | ⟨next, hn, -, -, ⟨-, heq⟩ | ⟨op, hop, heq⟩⟩
    · rw [heq]
      exact .dropped (fun _ _ hp => hp) rfl rfl (fun _ hid => hid) (fun _ hr => hr)
    · rw [heq]
      exact .dropped (fun _ _ hp => hp) rfl rfl (fun _ hid => hid) (fun _ hr => hr)
    · rw [heq]
      refine .opened _ { generation, context := .operation op } (hids.fresh hn) rfl rfl ?_ rfl rfl
      simp only [issue, hop, Option.map_some, Option.toList_some, List.map_cons, List.map_nil]
  | openView generation =>
    simp only [step, openView]
    rcases w.hub.openViewStart_cases generation with ⟨e, heq⟩ | ⟨next, hn, -, -, -, heq⟩
    · rw [heq]
      exact .dropped (fun _ _ hp => hp) rfl rfl (fun _ hid => hid) (fun _ hr => hr)
    · rw [heq]
      exact .opened _ { generation, context := .terminalOpen } (hids.fresh hn) rfl rfl rfl rfl rfl
  | openUpload generation =>
    -- an upload gets an id, but nothing waits for an answer under it
    simp only [step, openUpload]
    rcases w.hub.openUploadStart_cases generation with ⟨e, heq⟩ | ⟨next, hn, -, -, heq⟩
    · rw [heq]
      exact .dropped (fun _ _ hp => hp) rfl rfl (fun _ hid => hid) (fun _ hr => hr)
    · rw [heq]
      refine .dropped (fun _ _ hp => hp) rfl ?_ (fun id hid => List.mem_append_left _ hid)
        (fun _ hr => hr)
      exact List.append_nil _
  | dispatch generation envelope moment => exact books_dispatch hi generation envelope moment
  | dispatchJson generation moment =>
    simp only [step]
    split
    · exact .dropped (fun _ _ hp => hp) rfl rfl (fun _ hid => hid) (fun _ hr => hr)
    · split
      · exact .dropped (fun _ _ hp => hp) rfl rfl (fun _ hid => hid) (fun _ hr => hr)
      -- the dispatch after a read is the dispatch of a world with an idle reader
      · have hb := books_dispatch
          (w := { w with readers := Function.update w.readers generation none })
          hi generation ‹_› moment
        cases hb with
        | dropped hp hr hg hiss hrec => exact .dropped hp hr hg hiss hrec
        | opened id p hnew hp hr hg hiss hrec => exact .opened id p hnew hp hr hg hiss hrec
        | answered p r x hw hp hr hok hg hiss hrec =>
            exact .answered p r x hw hp hr hok hg hiss hrec
        | hungUp reason hp hr hg hiss hrec => exact .hungUp reason hp hr hg hiss hrec
  | removePending generation id =>
    refine hquiet rfl ?_ rfl
    simp only [step, Hub.removePending]
    split <;> rfl
  | removeView generation id code =>
    refine hquiet rfl ?_ rfl
    simp only [step, Hub.removeView]
    split <;> rfl
  | removeUpload generation id => exact hquiet rfl (replies_removeUpload w.hub generation id) rfl
  | dropLease id =>
    refine hquiet rfl ?_ ?_
    · simp only [step, dropLease]
      split
      · rfl
      · exact replies_removeUpload w.hub _ id
    · simp only [step, dropLease]
      split <;> rfl
  | submit generation body => exact hquiet rfl (replies_submit w.hub generation body) rfl
  | cleanup generation body => exact hquiet rfl (replies_cleanup w.hub generation body) rfl
  | written =>
    refine hquiet rfl ?_ ?_
    · simp only [step]; split <;> rfl
    · simp only [step]; split <;> rfl
  | release n => exact hquiet rfl rfl rfl
  | consume =>
    refine hquiet rfl ?_ ?_
    · simp only [step]; split <;> rfl
    · simp only [step]; split <;> rfl
  | popView id =>
    refine hquiet rfl ?_ ?_
    · simp only [step]; split <;> rfl
    · simp only [step]; split <;> rfl
  | uncountView id => exact hquiet rfl rfl rfl
  | readJson generation message =>
    refine hquiet rfl ?_ ?_
    · simp only [step]; split <;> rfl
    · simp only [step]; split <;> rfl
  | receive id =>
    refine hquiet rfl ?_ ?_
    · simp only [step, receive]
      split
      · rfl
      · split
        · rfl
        · split <;> rfl
    · simp only [step, receive]
      split
      · rfl
      · split
        · rfl
        · split <;> rfl
  | take id =>
    refine hquiet rfl ?_ ?_
    · simp only [step, take]
      split
      · rfl
      · split
        · rfl
        · split <;> rfl
    · simp only [step, take]
      split
      · rfl
      · split
        · rfl
        · split <;> rfl

/-! ### Runs

The invariant relates the hub, the record and the answers. -/

/-- The invariant over the record of the run. -/
structure Correlated (w : World codec) : Prop where
  /-- An id is registered once, and only after it was handed out. -/
  registered_nodup : (w.registered.map Prod.fst).Nodup
  registered_issued : ∀ r ∈ w.registered, r.1 ∈ w.issued
  /-- Whoever waits was registered so. -/
  waits : ∀ (id : String) (p : Pending),
    w.hub.state.pending[id]? = some p → (id, p) ∈ w.registered
  /-- An id is resolved once, was registered, and does not wait any more. -/
  resolved_nodup : (w.hub.replies.map Prod.fst).Nodup
  resolved_registered : ∀ r ∈ w.hub.replies, ∃ p, (r.1, p) ∈ w.registered
  resolved_done : ∀ r ∈ w.hub.replies, w.hub.state.pending[r.1]? = none
  /-- A success came by an answer with that id, on its connection, of its type. -/
  resolved_ok : ∀ id r, (id, .ok r) ∈ w.hub.replies →
    r.id = id ∧ ∃ p, (id, p) ∈ w.registered ∧ (p.generation, r) ∈ w.received ∧
      responseMatches r p.context = true

theorem correlated_init : (init codec).Correlated where
  registered_nodup := List.nodup_nil
  registered_issued := fun r hr => absurd hr List.not_mem_nil
  waits := fun id p hp => by simp [init, Hub.new] at hp
  resolved_nodup := List.nodup_nil
  resolved_registered := fun r hr => absurd hr List.not_mem_nil
  resolved_done := fun r hr => absurd hr List.not_mem_nil
  resolved_ok := fun id r hr => absurd hr List.not_mem_nil

/-- Two registrations of one id are the same. -/
theorem Correlated.registered_inj (h : w.Correlated) {id : String} {p q : Pending}
    (hp : (id, p) ∈ w.registered) (hq : (id, q) ∈ w.registered) : p = q :=
  (Prod.mk.inj (List.inj_on_of_nodup_map h.registered_nodup hp hq rfl)).2

/-- **Step lemma.** Each of the four keeps the invariant. -/
theorem Correlated.books {w' : World codec} (h : w.Correlated) (hb : Books w w') :
    w'.Correlated := by
  cases hb with
  | dropped hpending hreplies hregistered hissued hreceived =>
    -- what waits can only go, and an id that was answered waits no more
    refine ⟨hregistered ▸ h.registered_nodup, ?_, ?_, hreplies ▸ h.resolved_nodup, ?_, ?_, ?_⟩
    · intro r hr
      exact hissued _ (h.registered_issued r (hregistered ▸ hr))
    · intro id p hp
      exact hregistered ▸ h.waits id p (hpending id p hp)
    · rw [hreplies, hregistered]
      exact h.resolved_registered
    · intro r hr
      cases hp : w'.hub.state.pending[r.1]? with
      | none => rfl
      | some p =>
        have hnone := h.resolved_done r (hreplies ▸ hr)
        rw [hpending _ p hp] at hnone
        cases hnone
    · intro id r hr
      obtain ⟨hid, p, hp, hrec, hmatch⟩ := h.resolved_ok id r (hreplies ▸ hr)
      exact ⟨hid, p, hregistered ▸ hp, hreceived _ hrec, hmatch⟩
  | opened id p hnew hpending hreplies hregistered hissued hreceived =>
    -- the new id was never issued, so it was never registered
    have hfresh : ∀ q, (id, q) ∉ w.registered := fun q hq => hnew (h.registered_issued _ hq)
    refine ⟨?_, ?_, ?_, hreplies ▸ h.resolved_nodup, ?_, ?_, ?_⟩
    · rw [hregistered, List.map_append, List.nodup_append]
      refine ⟨h.registered_nodup, List.nodup_singleton _, ?_⟩
      intro a ha b hb
      obtain ⟨r, hr, rfl⟩ := List.mem_map.mp ha
      rintro rfl
      rw [List.map_singleton, List.mem_singleton] at hb
      have hid : r.1 = id := hb
      exact hnew (hid ▸ h.registered_issued r hr)
    · intro r hr
      rw [hregistered, List.mem_append, List.mem_singleton] at hr
      rw [hissued, List.mem_append, List.mem_singleton]
      rcases hr with hr | rfl
      · exact Or.inl (h.registered_issued r hr)
      · exact Or.inr rfl
    · intro id' q hq
      -- a waiting request is the new one or an old one
      rw [hpending, Std.ExtTreeMap.getElem?_insert] at hq
      rw [hregistered, List.mem_append, List.mem_singleton]
      split at hq
      · rename_i heq
        rw [Std.compare_eq_iff_eq] at heq
        exact Or.inr (by rw [heq, Option.some.inj hq])
      · exact Or.inl (h.waits id' q hq)
    · intro r hr
      obtain ⟨q, hq⟩ := h.resolved_registered r (hreplies ▸ hr)
      exact ⟨q, hregistered ▸ List.mem_append_left _ hq⟩
    · intro r hr
      rw [hreplies] at hr
      -- no old reply has the new id
      rw [hpending, Std.ExtTreeMap.getElem?_insert]
      split
      · rename_i heq
        rw [Std.compare_eq_iff_eq] at heq
        obtain ⟨q, hq⟩ := h.resolved_registered r hr
        exact absurd (heq ▸ hq) (hfresh q)
      · exact h.resolved_done r hr
    · intro id' r hr
      obtain ⟨hid, q, hq, hrec, hmatch⟩ := h.resolved_ok id' r (hreplies ▸ hr)
      exact ⟨hid, q, hregistered ▸ List.mem_append_left _ hq, hreceived ▸ hrec, hmatch⟩
  | answered p response result hwaits hpending hreplies hok hregistered hissued hreceived =>
    -- the answer is for an id that waits, so there is no reply for it yet
    have hnew : ∀ r ∈ w.hub.replies, r.1 ≠ response.id := by
      intro r hr heq
      have hnone := h.resolved_done r hr
      rw [heq, hwaits] at hnone
      cases hnone
    refine ⟨hregistered ▸ h.registered_nodup, ?_, ?_, ?_, ?_, ?_, ?_⟩
    · rw [hregistered, hissued]
      exact h.registered_issued
    · intro id q hq
      rw [hpending] at hq
      exact hregistered ▸ h.waits id q (getElem?_of_erase hq)
    -- replies stay distinct, for the new one is to an id without one
    · rw [hreplies, List.map_append, List.nodup_append]
      refine ⟨h.resolved_nodup, List.nodup_singleton _, ?_⟩
      intro a ha b hb
      obtain ⟨r, hr, rfl⟩ := List.mem_map.mp ha
      rw [List.map_singleton, List.mem_singleton] at hb
      rw [hb]
      exact hnew r hr
    · intro r hr
      rw [hreplies, List.mem_append, List.mem_singleton] at hr
      rw [hregistered]
      rcases hr with hr | rfl
      · exact h.resolved_registered r hr
      · exact ⟨p, h.waits _ p hwaits⟩
    · intro r hr
      rw [hreplies, List.mem_append, List.mem_singleton] at hr
      -- the answered request waits no more
      rw [hpending, Std.ExtTreeMap.getElem?_erase]
      rcases hr with hr | rfl
      · rw [h.resolved_done r hr, ite_self]
      · rw [if_pos Std.ReflCmp.compare_self]
    · intro id r hr
      rw [hreplies, List.mem_append, List.mem_singleton] at hr
      rcases hr with hr | heq
      · obtain ⟨hid, q, hq, hrec, hmatch⟩ := h.resolved_ok id r hr
        exact ⟨hid, q, hregistered ▸ hq, hreceived ▸ List.mem_append_left _ hrec, hmatch⟩
      · obtain ⟨rfl, hres⟩ := Prod.mk.inj heq
        -- a good reply is the response that came, and it matches what was asked
        obtain ⟨rfl, hmatch⟩ := hok r hres.symm
        refine ⟨rfl, p, hregistered ▸ h.waits _ p hwaits, ?_, hmatch⟩
        rw [hreceived]
        exact List.mem_append_right _ (List.mem_singleton_self _)
  | hungUp reason hpending hreplies hregistered hissued hreceived =>
    refine ⟨hregistered ▸ h.registered_nodup, ?_, ?_, ?_, ?_, ?_, ?_⟩
    · rw [hregistered, hissued]
      exact h.registered_issued
    · intro id q hq
      rw [hpending, Std.ExtTreeMap.getElem?_empty] at hq
      cases hq
    -- all that waits is answered at once, each under its own id
    · rw [hreplies, List.map_append, List.nodup_append, List.map_map]
      refine ⟨h.resolved_nodup, ?_, ?_⟩
      · exact (List.map_id _).symm ▸ Std.ExtTreeMap.nodup_keys
      · intro a ha b hb
        obtain ⟨r, hr, rfl⟩ := List.mem_map.mp ha
        obtain ⟨k, hk, rfl⟩ := List.mem_map.mp hb
        rintro heq
        have hnone := h.resolved_done r hr
        rw [Std.ExtTreeMap.mem_keys, Std.ExtTreeMap.mem_iff_isSome_getElem?] at hk
        simp only [Function.comp_apply] at heq
        rw [heq] at hnone
        rw [hnone] at hk
        cases hk
    · intro r hr
      rw [hreplies, List.mem_append] at hr
      rw [hregistered]
      rcases hr with hr | hr
      · exact h.resolved_registered r hr
      · obtain ⟨k, hk, rfl⟩ := List.mem_map.mp hr
        rw [Std.ExtTreeMap.mem_keys, Std.ExtTreeMap.mem_iff_isSome_getElem?,
          Option.isSome_iff_exists] at hk
        obtain ⟨p, hp⟩ := hk
        exact ⟨p, h.waits _ p hp⟩
    · intro r hr
      rw [hpending, Std.ExtTreeMap.getElem?_empty]
    · intro id r hr
      rw [hreplies, List.mem_append] at hr
      rw [hregistered, hreceived]
      rcases hr with hr | hr
      · exact h.resolved_ok id r hr
      -- such an answer is an error
      · obtain ⟨k, -, heq⟩ := List.mem_map.mp hr
        cases (Prod.mk.inj heq).2

/-- **Run lemma.** -/
theorem correlated_run (actions : List (Action codec)) :
    ((init codec).run actions).Correlated := by
  induction actions using List.reverseRecOn with
  | nil => exact correlated_init
  | append_singleton actions a ih =>
    rw [run, List.foldl_append]
    exact ih.books (books_step (isolated_run actions) (ids_run actions) a)

/-- An answer touches the request it names and no other; without one it touches nothing. -/
theorem dispatch_response (generation : UInt64) {envelope : Pb.Envelope} {response : Pb.Response}
    (hr : responseOf envelope = some response) (moment : Moment) :
    (∀ id : String, id ≠ response.id →
      (w.dispatch generation envelope moment).hub.state.pending[id]?
        = w.hub.state.pending[id]? ∧
      ∀ result, (id, result) ∈ (w.dispatch generation envelope moment).hub.replies →
        (id, result) ∈ w.hub.replies) ∧
    (w.hub.state.pending[response.id]? = none →
      (w.dispatch generation envelope moment).hub.state.pending = w.hub.state.pending ∧
      (w.dispatch generation envelope moment).hub.replies = w.hub.replies) := by
  have heq := w.hub.dispatchLocked_topic codec generation envelope moment
  rw [topic_of_responseOf hr] at heq
  dsimp only at heq
  simp only [dispatch, withHub, heq]
  split
  · exact ⟨fun id _ => ⟨rfl, fun _ hx => hx⟩, fun _ => ⟨rfl, rfl⟩⟩
  rcases w.hub.onResponse_cases codec generation response with
    ⟨-, hnone⟩ | ⟨p, hwaits, hpending, hcase⟩
  · rw [hnone]
    exact ⟨fun id _ => ⟨rfl, fun _ hx => hx⟩, fun _ => ⟨rfl, rfl⟩⟩
  · refine ⟨fun id hne => ⟨?_, fun result hmem => ?_⟩, fun hnone => ?_⟩
    · rw [hpending, Std.ExtTreeMap.getElem?_erase, if_neg]
      rw [Std.compare_eq_iff_eq]
      exact fun h => hne h.symm
    · rcases hcase with ⟨-, hsame⟩ | ⟨-, x, hreplies, -⟩
      · exact hsame ▸ hmem
      · rw [hreplies, List.mem_append, List.mem_singleton] at hmem
        rcases hmem with hmem | hx
        · exact hmem
        · exact absurd (Prod.mk.inj hx).1 hne
    · rw [hwaits] at hnone
      cases hnone

/-! ### The v1 readers

A reader of the first protocol gives up the lock between looking a request up and dispatching its
answer; what it holds in between was true when it looked. -/

/-- The context a v1 reader finds is that of the request waiting under the message's id on the
    reader's own connection. -/
theorem readContext_some {h : Hub} {generation : UInt64} {message : codec.Message}
    {context : Option ResponseContext}
    (hc : h.readContext codec generation message = some context) :
    if codec.kind message = "response" then
      ∃ c, context = some c ∧
        h.state.pending[codec.id message]? = some { generation, context := c }
    else context = none := by
  rw [Hub.readContext] at hc
  split at hc
  · rename_i hkind
    rw [if_pos (by simpa using hkind)]
    split at hc
    · cases hc
    · rename_i p hp
      split at hc
      · rename_i hgen
        refine ⟨p.context, (Option.some.inj hc).symm, ?_⟩
        rw [hp, ← hgen]
      · cases hc
  · rename_i hkind
    rw [if_neg (by simpa using hkind)]
    exact (Option.some.inj hc).symm

/-- A reader holds what it held before, or what it has just looked up. -/
theorem readers_step (a : Action codec) {generation : UInt64} {message : codec.Message}
    {context : Option ResponseContext}
    (hr : (w.step a).readers generation = some (message, context)) :
    w.readers generation = some (message, context) ∨
      w.hub.readContext codec generation message = some context := by
  cases a with
  | readJson g m =>
    simp only [step] at hr
    split at hr
    · exact Or.inl hr
    · rename_i c hc
      -- only the reader of this generation changes
      by_cases hg : generation = g
      · subst hg
        simp only [Function.update_self, Option.some.injEq, Prod.mk.injEq] at hr
        obtain ⟨rfl, rfl⟩ := hr
        exact Or.inr hc
      · simp only [Function.update_of_ne hg] at hr
        exact Or.inl hr
  | dispatchJson g moment =>
    simp only [step] at hr
    have hidle : Function.update w.readers g none generation = some (message, context) →
        w.readers generation = some (message, context) := by
      -- the reader that dispatched is idle now
      intro h
      by_cases hg : generation = g
      · subst hg
        simp only [Function.update_self] at h
        cases h
      · rwa [Function.update_of_ne hg] at h
    split at hr
    · exact Or.inl hr
    · split at hr
      · exact Or.inl (hidle hr)
      · exact Or.inl (hidle hr)
  | request g operation =>
    simp only [step, request] at hr
    split at hr <;> exact Or.inl hr
  | openView g =>
    simp only [step, openView] at hr
    split at hr <;> exact Or.inl hr
  | openUpload g =>
    simp only [step, openUpload] at hr
    split at hr <;> exact Or.inl hr
  | dropLease id =>
    simp only [step, dropLease] at hr
    split at hr <;> exact Or.inl hr
  | written =>
    simp only [step] at hr
    split at hr <;> exact Or.inl hr
  | consume =>
    simp only [step] at hr
    split at hr <;> exact Or.inl hr
  | popView id =>
    simp only [step] at hr
    split at hr <;> exact Or.inl hr
  | receive id =>
    simp only [step, receive] at hr
    split at hr
    · exact Or.inl hr
    · split at hr
      · exact Or.inl hr
      · split at hr <;> exact Or.inl hr
  | take id =>
    simp only [step, take] at hr
    split at hr
    · exact Or.inl hr
    · split at hr
      · exact Or.inl hr
      · split at hr <;> exact Or.inl hr
  | _ => exact Or.inl hr

theorem Books.registered_mono {w' : World codec} (hb : Books w w') :
    ∀ r ∈ w.registered, r ∈ w'.registered := by
  intro r hr
  cases hb with
  | dropped hp hrep hreg hiss hrec => exact hreg ▸ hr
  | opened id p hnew hp hrep hreg hiss hrec => exact hreg ▸ List.mem_append_left _ hr
  | answered p response x hw hp hrep hok hreg hiss hrec => exact hreg ▸ hr
  | hungUp reason hp hrep hreg hiss hrec => exact hreg ▸ hr

/-- What a v1 reader holds between lookup and dispatch: an answer comes with the context
    registered under its id on the reader's connection, anything else without one. -/
def Looked (w : World codec) : Prop :=
  ∀ generation message context, w.readers generation = some (message, context) →
    if codec.kind message = "response" then
      ∃ c, context = some c ∧ (codec.id message, { generation, context := c }) ∈ w.registered
    else context = none

theorem looked_run (actions : List (Action codec)) : ((init codec).run actions).Looked := by
  induction actions using List.reverseRecOn with
  | nil => exact fun generation message context hr => by cases hr
  | append_singleton actions a ih =>
    rw [run, List.foldl_append]
    intro generation message context hr
    have hb := books_step (isolated_run actions) (ids_run actions) a
    rcases readers_step a hr with hold | hnew
    · have h := ih generation message context hold
      split at h
      · rename_i hkind
        rw [if_pos hkind]
        obtain ⟨c, hc, hreg⟩ := h
        exact ⟨c, hc, hb.registered_mono _ hreg⟩
      · rename_i hkind
        rw [if_neg hkind]
        exact h
    · have h := readContext_some hnew
      split at h
      · rename_i hkind
        rw [if_pos hkind]
        obtain ⟨c, hc, hp⟩ := h
        exact ⟨c, hc, hb.registered_mono _ ((correlated_run actions).waits _ _ hp)⟩
      · rename_i hkind
        rw [if_neg hkind]
        exact h

/-- **Correlation.** After any interleaving of requests, cancellations, reconnects and answers,
    whatever they carry:
    each id is registered at most once and resolved at most once, and what is resolved waits no
    more; a success came by an answer received on the connection of the request, with its id and
    of the type of its context; an answer touches no request but the one waiting under its id;
    and a v1 reader decodes an answer with the context of the request that waited under its id
    on the reader's connection, which is still the one waiting under that id, if any does. -/
theorem response_correlation (codec : Codec) (actions : List (Action codec)) :
    let w := (init codec).run actions
    ((w.registered.map Prod.fst).Nodup ∧ (w.hub.replies.map Prod.fst).Nodup ∧
      ∀ r ∈ w.hub.replies, (∃ p, (r.1, p) ∈ w.registered) ∧ w.hub.state.pending[r.1]? = none) ∧
    (∀ id r, (id, .ok r) ∈ w.hub.replies →
      r.id = id ∧ ∃ p, (id, p) ∈ w.registered ∧ (p.generation, r) ∈ w.received ∧
        responseMatches r p.context = true) ∧
    (∀ generation envelope response moment, responseOf envelope = some response →
      let w' := w.dispatch generation envelope moment
      (∀ id : String, id ≠ response.id →
        w'.hub.state.pending[id]? = w.hub.state.pending[id]? ∧
        ∀ result, (id, result) ∈ w'.hub.replies → (id, result) ∈ w.hub.replies) ∧
      (w.hub.state.pending[response.id]? = none →
        w'.hub.state.pending = w.hub.state.pending ∧ w'.hub.replies = w.hub.replies)) ∧
    (∀ generation message context, codec.kind message = "response" →
      (w.hub.readContext codec generation message = some context →
        ∃ c, context = some c ∧
          w.hub.state.pending[codec.id message]? = some { generation, context := c }) ∧
      (w.readers generation = some (message, context) →
        ∃ c, context = some c ∧
          (codec.id message, { generation, context := c }) ∈ w.registered ∧
          ∀ p, w.hub.state.pending[codec.id message]? = some p →
            p = { generation, context := c })) := by
  intro w
  have hc : w.Correlated := correlated_run actions
  refine ⟨⟨hc.registered_nodup, hc.resolved_nodup,
    fun r hr => ⟨hc.resolved_registered r hr, hc.resolved_done r hr⟩⟩, hc.resolved_ok,
    fun generation envelope response moment hr => dispatch_response generation hr moment, ?_⟩
  intro generation message context hkind
  constructor
  · intro hread
    have h := readContext_some hread
    rwa [if_pos hkind] at h
  · intro hheld
    have h := looked_run actions generation message context hheld
    rw [if_pos hkind] at h
    obtain ⟨c, hctx, hreg⟩ := h
    exact ⟨c, hctx, hreg, fun p hp => hc.registered_inj (hc.waits _ p hp) hreg⟩

end World

end Hmux.Gateway
