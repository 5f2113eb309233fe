import Hmux.Home.Peer

namespace Hmux.Home

open Hmux.Lib Hmux.Pb Hmux.Protocol

/-!
# Home answers every request once

What holds on a link that is not stopped, whatever the order of its events:

* `Task.next_spec` — a step of a job drops what it no longer holds, and sends at most the one
  response that it owes;
* `Inv`, `Inv.step` — the permits are where they should be, `pending` has the ids of the jobs, and
  every request is answered or will be;
* `answered_once` — what follows for the requests of a run.

The books are kept for every id: how often it was asked, how many responses went out, and how many
are still owed by a job or by the loop.  Each event moves one of these from one place to another,
and `answered_once` compares the first with the last when nothing is owed any more.
-/

/-! ### One job

A job owes one response or none, and what it holds is given back when it is over, also when it
panics. -/

/-- The responses that a job will still send. -/
def Phase.owed : Phase → ℕ
  | .working | .replying _ => 1
  | .draining _ | .finished _ | .panicked => 0

def Stage.owed : Stage → ℕ
  | .opening | .refusing | .answering => 1
  | .attached | .leaving | .finished _ | .panicked => 0

def Task.owed : Task → ℕ
  | .action _ phase | .conversation _ _ phase | .profiles _ phase => phase.owed
  | .terminal stage => stage.owed
  | .upload _ => 0

/-- The answer of the job has been sent. -/
def Phase.settled : Phase → Bool
  | .draining (.ok ()) | .finished (.ok ()) => true
  | _ => false

/-- A job of a request has answered; terminals and uploads answer no request. -/
def Task.settled : Task → Bool
  | .action _ phase | .conversation _ _ phase | .profiles _ phase => phase.settled
  | .terminal _ | .upload _ => true

/-- The answer that is being sent carries the id of the job, and the profiles are not over before
    their worker. -/
def Task.Sound (id : String) : Task → Prop
  | .action _ (.replying body) | .conversation _ _ (.replying body)
  | .profiles _ (.replying body) =>
    body.id = id
  | .profiles true (.finished _) => False
  | _ => True

/-- What one step of a job may do. -/
structure StepSpec (id : String) (stop : Bool) (t : Task) (e : Effect) : Prop where
  slots : t.slots = e.task.slots + e.slots
  waiters : t.waiters = e.task.waiters + e.waiters
  profile : t.profile = e.task.profile + e.profile
  terminals : t.terminals = e.task.terminals + e.terminal
  owed : e.sent.toList.length + e.task.owed ≤ t.owed
  sound : e.task.Sound id
  sent : ∀ body ∈ e.sent, body.id = id
  settled : stop = false → t.settled = false → e.task.settled = true → e.sent.isSome = true

section

variable {id : String} {stop cancelled delivered : Bool} {body : Response} {t : Task} {e : Effect}

/-- Both answers carry the id. -/
theorem ite_id {p : Prop} [Decidable p] {a b : Response} (ha : a.id = id) (hb : b.id = id) :
    (if p then a else b).id = id := by
  split
  · exact ha
  · exact hb

/-- A failure of the workspace has the id of its request. -/
theorem workspaceFailure_id (err : WorkspaceError) : (workspaceFailure id err cancelled).id = id :=
  ite_id rfl (ite_id rfl rfl)

/-- A failure of a session has the id of its request. -/
theorem sessionFailure_id (err : SessionsError) : (sessionFailure id err cancelled).id = id := by
  unfold sessionFailure
  split
  all_goals first | rfl | exact ite_id rfl rfl

/-- Every reply of an action has the id of its request. -/
theorem reply_id (outcome : Outcome) : (outcome.reply id cancelled).id = id := by
  unfold Outcome.reply
  split
  · exact ite_id rfl rfl
  · exact ite_id rfl rfl
  · exact ite_id rfl rfl
  · exact workspaceFailure_id _
  · exact ite_id rfl rfl
  · exact sessionFailure_id _

/-- The reply of a conversation has the id of its request. -/
theorem conversationReply_id (result : Except InspectionError ConversationResult) :
    (conversationReply id cancelled result).id = id := by
  unfold conversationReply
  split
  · exact ite_id rfl rfl
  · exact ite_id rfl (ite_id rfl rfl)

/-- The reply of the profiles has the id of its request. -/
theorem profilesReply_id (result : Except Error ProfilesResult) :
    (profilesReply id cancelled result).id = id := by
  unfold profilesReply
  split
  · exact ite_id rfl rfl
  · rfl

/-- A `send` sends at most the one message, and if it returns `Ok` on a link that is not stopped it
    has sent it. -/
theorem delivery_spec {result r : Except Error Unit} {sent : Option Response}
    (h : delivery stop body result delivered = (sent, r)) :
    sent.toList.length ≤ 1 ∧ (∀ b ∈ sent, b = body) ∧
      (stop = false → r = .ok () → sent = some body) := by
  unfold delivery at h
  split at h
  · rename_i hstop
    cases h
    exact ⟨Nat.zero_le _, nofun, fun hfalse => absurd (hstop.symm.trans hfalse) (by decide)⟩
  · cases result with
    | ok u =>
      cases h
      refine ⟨Nat.le_refl _, ?_, fun _ _ => rfl⟩
      rintro b ⟨⟩
      rfl
    | error err =>
      cases h
      split
      · refine ⟨Nat.le_refl _, ?_, nofun⟩
        rintro b ⟨⟩
        rfl
      · exact ⟨Nat.zero_le _, nofun, nofun⟩

/-- The steps of a conversation that waits to be admitted. -/
theorem Admission.step_spec {a : Admission} {event : JobEvent}
    (h : a.step id cancelled event = some e) :
    StepSpec id stop (.conversation a false .working) e := by
  obtain ⟨request, granted, scan, queue⟩ := a
  unfold Admission.step at h
  split at h
  · -- the cancellation is noticed: the permit that was handed over goes back
    split at h
    · cases h
      refine ⟨rfl, rfl, rfl, rfl, Nat.le_refl _, rfl, nofun, nofun⟩
    · cases h
  · split at h
    · cases h
    · cases h
      refine ⟨rfl, rfl, rfl, rfl, Nat.le_refl _, ?_, nofun, nofun⟩
      exact ite_id rfl rfl
  · split at h
    · rename_i hgranted
      simp only [Bool.and_eq_true, Bool.not_eq_true'] at hgranted
      obtain ⟨⟨rfl, rfl⟩, -⟩ := hgranted
      cases h
      exact ⟨rfl, rfl, rfl, rfl, Nat.le_refl _, trivial, nofun, nofun⟩
    · cases h
  · split at h
    · cases h
      exact ⟨rfl, rfl, rfl, rfl, Nat.le_refl _, trivial, nofun, nofun⟩
    · cases h
  · split at h
    · split at h
      · cases h
        exact ⟨rfl, rfl, rfl, rfl, Nat.le_refl _, rfl, nofun, nofun⟩
      · cases h
        refine ⟨rfl, ?_, rfl, rfl, Nat.le_refl _, trivial, nofun, nofun⟩
        exact (Nat.zero_add _).symm
    · cases h
  · cases h

/-- A job that was sent its answer with success. -/
theorem Phase.ok_of_settled {r : Except Error Unit}
    (h : Phase.settled (.finished r) = true ∨ Phase.settled (.draining r) = true) : r = .ok () := by
  cases r with
  | ok u => rfl
  | error err => rcases h with h | h <;> cases h

/-- **The steps of a job.** -/
theorem Task.step_spec {event : JobEvent} (hsound : t.Sound id)
    (h : t.step id stop cancelled event = some e) : StepSpec id stop t e := by
  unfold Task.step at h
  split at h
  · -- a service returns
    -- the task waits for its answer to be sent, with all its permits
    split at h
    · cases h
      exact ⟨rfl, rfl, rfl, rfl, Nat.le_refl _, reply_id _, nofun, nofun⟩
    · cases h
  · -- its answer is sent
    rename_i work body result delivered
    obtain ⟨⟨sent, r⟩, hd⟩ : ∃ d, delivery stop body result delivered = d := ⟨_, rfl⟩
    rw [hd] at h
    cases h
    obtain ⟨hlength, hbody, hsent⟩ := delivery_spec hd
    refine ⟨rfl, rfl, rfl, rfl, hlength, trivial, fun b hb => ?_, fun hstop _ hsettled => ?_⟩
    · rw [hbody b hb]
      exact hsound
    · rw [hsent hstop (Phase.ok_of_settled (.inl hsettled))]
      rfl
  · exact Admission.step_spec h
  -- a conversation that is inspected has an answer
  · cases h
    exact ⟨rfl, rfl, rfl, rfl, Nat.le_refl _, conversationReply_id _, nofun, nofun⟩
  · rename_i a admitted body result delivered
    obtain ⟨⟨sent, r⟩, hd⟩ : ∃ d, delivery stop body result delivered = d := ⟨_, rfl⟩
    rw [hd] at h
    cases h
    -- its permits go with its last answer
    obtain ⟨hlength, hbody, hsent⟩ := delivery_spec hd
    refine ⟨(Nat.zero_add _).symm, (Nat.zero_add _).symm, rfl, rfl, hlength, trivial,
      fun b hb => ?_, fun hstop _ hsettled => ?_⟩
    · rw [hbody b hb]
      exact hsound
    · rw [hsent hstop (Phase.ok_of_settled (.inl hsettled))]
      rfl
  · -- the worker of the profiles is done
    rename_i phase
    cases h
    have hphase : Task.Sound id (.profiles false phase) := by
      cases phase with
      | finished sent => exact hsound.elim
      | _ => exact hsound
    refine ⟨rfl, rfl, rfl, rfl, Nat.le_of_eq (Nat.zero_add _), hphase, nofun, fun _ hnot hset => ?_⟩
    exact absurd (hnot.symm.trans hset) (by decide)
  -- a stop or a cancellation is noticed: after a stop there is no answer
  · split at h
    · rename_i hstop
      cases h
      refine ⟨rfl, rfl, rfl, rfl, Nat.zero_le _, trivial, nofun, fun hfalse => ?_⟩
      exact absurd (hstop.symm.trans hfalse) (by decide)
    · split at h
      · cases h
        exact ⟨rfl, rfl, rfl, rfl, Nat.le_refl _, rfl, nofun, nofun⟩
      · cases h
  · cases h
    exact ⟨rfl, rfl, rfl, rfl, Nat.le_refl _, ite_id rfl rfl, nofun, nofun⟩
  · cases h
    exact ⟨rfl, rfl, rfl, rfl, Nat.le_refl _, profilesReply_id _, nofun, nofun⟩
  -- the answer of the profiles is sent
  · rename_i worker body result delivered
    obtain ⟨⟨sent, r⟩, hd⟩ : ∃ d, delivery stop body result delivered = d := ⟨_, rfl⟩
    rw [hd] at h
    cases h
    obtain ⟨hlength, hbody, hsent⟩ := delivery_spec hd
    refine ⟨rfl, rfl, rfl, rfl, hlength, trivial, fun b hb => ?_, fun hstop _ hsettled => ?_⟩
    · rw [hbody b hb]
      exact hsound
    · rw [hsent hstop (Phase.ok_of_settled (.inr hsettled))]
      rfl
  -- the task is drained and drops its slot
  · rename_i result
    cases h
    refine ⟨rfl, rfl, rfl, rfl, Nat.le_refl _, trivial, nofun, fun _ hnot hset => ?_⟩
    cases result with
    | ok u => cases hnot
    | error err => cases hset
  · -- a terminal is open or refused: its startup permit is dropped
    rename_i ok
    cases h
    cases ok with
    | true => exact ⟨rfl, rfl, rfl, rfl, Nat.le_refl _, trivial, nofun, nofun⟩
    | false => exact ⟨rfl, rfl, rfl, rfl, Nat.le_refl _, trivial, nofun, nofun⟩
  -- a terminal that is refused says so
  · rename_i result delivered
    obtain ⟨⟨sent, r⟩, hd⟩ : ∃ d, delivery cancelled (unsupported id) result delivered = d :=
      ⟨_, rfl⟩
    rw [hd] at h
    cases h
    obtain ⟨hlength, hbody, -⟩ := delivery_spec hd
    refine ⟨rfl, rfl, rfl, rfl, hlength, trivial, fun b hb => ?_, nofun⟩
    rw [hbody b hb]
    rfl
  -- an open terminal is acknowledged before it runs
  · rename_i result delivered
    obtain ⟨⟨sent, r⟩, hd⟩ : ∃ d,
      delivery false (response id (some (.ok ⟨⟩)) "") result delivered = d := ⟨_, rfl⟩
    rw [hd] at h
    cases h
    obtain ⟨hlength, hbody, -⟩ := delivery_spec hd
    have hid : ∀ b ∈ sent, b.id = id := fun b hb => by rw [hbody b hb]; rfl
    dsimp only
    split
    · exact ⟨rfl, rfl, rfl, rfl, hlength, trivial, hid, nofun⟩
    · cases r with
      | ok u => exact ⟨rfl, rfl, rfl, rfl, hlength, trivial, hid, nofun⟩
      | error err => exact ⟨rfl, rfl, rfl, rfl, hlength, trivial, hid, nofun⟩
  -- a terminal that was attached has nothing more to answer
  · cases h
    split
    · exact ⟨rfl, rfl, rfl, rfl, Nat.le_refl _, trivial, nofun, nofun⟩
    · exact ⟨rfl, rfl, rfl, rfl, Nat.le_refl _, trivial, nofun, nofun⟩
  · cases h
    exact ⟨rfl, rfl, rfl, rfl, Nat.le_refl _, trivial, nofun, nofun⟩
  · cases h
    exact ⟨rfl, rfl, rfl, rfl, Nat.le_refl _, trivial, nofun, nofun⟩
  · cases h

/-- **A step of a job**, or its panic. -/
theorem Task.next_spec {event : JobEvent} (hsound : t.Sound id)
    (h : t.next id stop cancelled event = some e) : StepSpec id stop t e := by
  unfold Task.next at h
  split at h
  · split at h
    · cases h
      cases t with
      | action work phase =>
        exact ⟨(Nat.zero_add _).symm, rfl, rfl, rfl, Nat.zero_le _, trivial, nofun, nofun⟩
      | conversation a admitted phase =>
        exact ⟨(Nat.zero_add _).symm, (Nat.zero_add _).symm, rfl, rfl, Nat.zero_le _, trivial,
          nofun, nofun⟩
      | profiles worker phase =>
        have hover : Task.Sound id (.profiles worker .panicked) := by cases worker <;> trivial
        exact ⟨(Nat.zero_add _).symm, rfl, rfl, rfl, Nat.zero_le _, hover, nofun, nofun⟩
      | terminal stage =>
        exact ⟨rfl, rfl, rfl, (Nat.zero_add _).symm, Nat.zero_le _, trivial, nofun, nofun⟩
      | upload phase => exact ⟨rfl, rfl, rfl, rfl, Nat.zero_le _, trivial, nofun, nofun⟩
    · cases h
  · exact Task.step_spec hsound h

end

/-! ### The whole link

The permits are in the semaphores, in the jobs or with the loop; the ids that wait are those of the
jobs. -/

/-- The request permits that the loop itself holds. -/
def Loop.slots : Loop → ℕ
  | .sending _ slots _ => slots
  | _ => 0

/-- The startup permits of terminals that the loop itself holds. -/
def Loop.terminals : Loop → ℕ
  | .sending _ _ terminals => terminals
  | _ => 0

/-- The loop is sending the answer to this id. -/
def Loop.answers (id : String) : Loop → Bool
  | .sending (some body) _ _ => body.id == id
  | _ => false

/-- The responses with this id that a job will still send. -/
def Job.owed (id : String) (job : Job) : ℕ := if job.id = id then job.task.owed else 0

/-- How many responses with this id went out. -/
def State.responses (s : State) (id : String) : ℕ := s.sent.countP fun r => r.id = id

/-- How often this id was requested, by a request or by opening a terminal. -/
def State.asked (s : State) (id : String) : ℕ := s.requests.count id + s.opens.count id

/-- What holds on a link that is not stopped. -/
structure Inv (s : State) : Prop where
  pending : ∀ id, s.pending.contains id = true ↔ id ∈ s.jobs.map Job.id
  distinct : (s.jobs.map Job.id).Nodup
  sound : ∀ job ∈ s.jobs, job.task.Sound job.id
  slots : s.slots.available + held (fun job => job.task.slots) s.jobs + s.loop.slots = requestSlots
  terminals : s.terminalSlots.available + held (fun job => job.task.terminals) s.jobs +
    s.loop.terminals = maxTerminals
  waiters : s.conversationWaiters.available + held (fun job => job.task.waiters) s.jobs =
    conversationWaiters
  profile : s.profileSlot.available + held (fun job => job.task.profile) s.jobs = 1
  owed : ∀ id, s.responses id + held (Job.owed id) s.jobs + (s.loop.answers id).toNat ≤ s.asked id
  answered : ∀ id ∈ s.requests, 0 < s.responses id ∨ s.loop.answers id = true ∨
    ∃ job ∈ s.jobs, job.id = id ∧ job.task.settled = false

/-- At first nothing is pending and every permit is there. -/
theorem inv_init : Inv .init where
  pending _ := ⟨nofun, nofun⟩
  distinct := List.nodup_nil
  sound := nofun
  slots := rfl
  terminals := rfl
  waiters := rfl
  profile := rfl
  owed _ := Nat.le_refl _
  answered := nofun

section

variable {s : State} {id : String}

/-- The invariant holds unless the link is stopped. -/
def Kept (s : State) : Prop := s.stop = false → Inv s

/-- The invariant is kept by doing nothing. -/
theorem Inv.kept (h : Inv s) : Kept s := fun _ => h

/-- A loop that ends needs no invariant. -/
theorem kept_fail {result : Except Error Unit} : Kept (s.fail result) := nofun

/-- A key is there after an insertion if it is the new one or was there. -/
theorem contains_insert {t : Table String ℕ} {key k : String} {value : ℕ} :
    (t.insert key value).contains k = true ↔ k = key ∨ t.contains k = true := by
  unfold Table.contains
  rw [Table.get?_insert]
  split
  · rename_i heq
    exact ⟨fun _ => .inl heq, fun _ => rfl⟩
  · rename_i hne
    exact ⟨.inr, fun h => h.resolve_left hne⟩

/-- A key is there after a removal if it is another one and was there. -/
theorem contains_erase {t : Table String ℕ} {key k : String} :
    (t.erase key).contains k = true ↔ k ≠ key ∧ t.contains k = true := by
  unfold Table.contains
  rw [Table.get?_erase]
  split
  · rename_i heq
    exact ⟨(fun h => by cases h), fun h => absurd heq h.1⟩
  · rename_i hne
    exact ⟨fun h => ⟨hne, h⟩, fun h => h.2⟩

/-- **A job is spawned** with permits that were taken out of the semaphores. -/
theorem Inv.spawn (h : Inv s) (hready : s.loop = .ready) (hid : s.pending.contains id = false)
    (task : Task) {slots terminalSlots waiters profileSlot : Semaphore}
    (hslots : s.slots.available = slots.available + task.slots)
    (hterminals : s.terminalSlots.available = terminalSlots.available + task.terminals)
    (hwaiters : s.conversationWaiters.available = waiters.available + task.waiters)
    (hprofile : s.profileSlot.available = profileSlot.available + task.profile)
    (hsound : task.Sound id) (terminals uploads : Table String ℕ) {requests opens : List String}
    (hasked : ∀ i, s.asked i + (if id = i then task.owed else 0) ≤ requests.count i + opens.count i)
    (hrequests : ∀ i ∈ requests, i ∈ s.requests ∨ i = id ∧ task.settled = false) :
    Inv ({ s with slots, terminalSlots, conversationWaiters := waiters, profileSlot, terminals,
                  uploads, requests, opens }.spawn id task) := by
  -- an id that is not pending belongs to no task, so the new task is the only one of its id
  have hnot : id ∉ s.jobs.map Job.id := by
    intro hmem
    rw [(h.pending id).mpr hmem] at hid
    cases hid
  constructor
  · intro i
    show (s.pending.insert id s.tokens).contains i = true ↔ i ∈ (s.jobs ++ [_]).map Job.id
    rw [contains_insert, h.pending, List.map_append, List.mem_append, List.map_singleton,
      List.mem_singleton, or_comm]
  · show ((s.jobs ++ [_]).map Job.id).Nodup
    rw [List.map_append, List.map_singleton, List.nodup_append]
    refine ⟨h.distinct, List.nodup_singleton _, ?_⟩
    rintro a ha b hb rfl
    rw [show a = id from List.mem_singleton.mp hb] at ha
    exact hnot ha
  · intro job hjob
    rcases List.mem_append.mp hjob with hjob | hjob
    · exact h.sound job hjob
    · rw [List.mem_singleton.mp hjob]
      exact hsound
  -- the permits: what the loop held while it was ready goes to the new task or back to its gate
  · have heq := h.slots
    rw [hready] at heq
    show slots.available + held _ (s.jobs ++ [_]) + Loop.slots s.loop = requestSlots
    rw [held_append, held_cons, held_nil, hready]
    dsimp only
    omega
  · have heq := h.terminals
    rw [hready] at heq
    show terminalSlots.available + held _ (s.jobs ++ [_]) + Loop.terminals s.loop = maxTerminals
    rw [held_append, held_cons, held_nil, hready]
    dsimp only
    omega
  · have heq := h.waiters
    show waiters.available + held _ (s.jobs ++ [_]) = conversationWaiters
    rw [held_append, held_cons, held_nil]
    dsimp only
    omega
  · have heq := h.profile
    show profileSlot.available + held _ (s.jobs ++ [_]) = 1
    rw [held_append, held_cons, held_nil]
    dsimp only
    omega
  -- what the task owes is covered by the request or the open that asked for it
  · intro i
    have hle := h.owed i
    have hadd := hasked i
    show s.responses i + held (Job.owed i) (s.jobs ++ [_]) + (Loop.answers i s.loop).toNat
      ≤ requests.count i + opens.count i
    rw [held_append, held_cons, held_nil]
    show s.responses i +
      (held (Job.owed i) s.jobs + ((if id = i then task.owed else 0) + 0)) + _ ≤ _
    omega
  · intro i hi
    rcases hrequests i hi with hi | ⟨rfl, hsettled⟩
    · rcases h.answered i hi with hsent | hloop | ⟨job, hjob, hjobId⟩
      · exact .inl hsent
      · exact .inr (.inl hloop)
      · exact .inr (.inr ⟨job, List.mem_append_left _ hjob, hjobId⟩)
    · exact .inr (.inr ⟨_, List.mem_append_right _ (List.mem_singleton_self _), rfl, hsettled⟩)

/-- **The loop answers by itself**, with the permits it holds meanwhile. -/
theorem Inv.sending (h : Inv s) (hready : s.loop = .ready) {body : Option Response} {m n : ℕ}
    {slots terminalSlots : Semaphore} (hslots : s.slots.available = slots.available + m)
    (hterminals : s.terminalSlots.available = terminalSlots.available + n)
    {requests opens : List String}
    (hasked : ∀ i, s.asked i + ((Loop.sending body m n).answers i).toNat
      ≤ requests.count i + opens.count i)
    (hrequests : ∀ i ∈ requests, i ∈ s.requests ∨ (Loop.sending body m n).answers i = true) :
    Inv { s with slots, terminalSlots, requests, opens, loop := .sending body m n } := by
  -- the tasks are untouched: what the loop held as ready it holds while it sends
  constructor
  · exact h.pending
  · exact h.distinct
  · exact h.sound
  · have heq := h.slots
    rw [hready] at heq
    show slots.available + held (fun job : Job => job.task.slots) s.jobs + m = requestSlots
    have hzero : Loop.slots .ready = 0 := rfl
    omega
  · have heq := h.terminals
    rw [hready] at heq
    show terminalSlots.available +
      held (fun job : Job => job.task.terminals) s.jobs + n = maxTerminals
    have hzero : Loop.terminals .ready = 0 := rfl
    omega
  · exact h.waiters
  · exact h.profile
  -- the answer that is being sent is what the new request asked for
  · intro i
    have hle := h.owed i
    have hadd := hasked i
    rw [hready] at hle
    have hzero : (Loop.answers i .ready).toNat = 0 := rfl
    show s.responses i + held (Job.owed i) s.jobs + ((Loop.sending body m n).answers i).toNat
      ≤ requests.count i + opens.count i
    omega
  · intro i hi
    rcases hrequests i hi with hi | hi
    · rcases h.answered i hi with hsent | hloop | hjob
      · exact .inl hsent
      · rw [hready] at hloop
        cases hloop
      · exact .inr (.inr hjob)
    · exact .inr (.inl hi)

/-- One more element is counted. -/
theorem count_concat (xs : List String) (x i : String) :
    (xs ++ [x]).count i = xs.count i + if x = i then 1 else 0 := by
  rw [List.count_append, List.count_singleton]
  simp only [beq_iff_eq]

/-- An element of a longer list is the last one or one of the others. -/
theorem mem_concat {xs : List String} {x i : String} (h : i ∈ xs ++ [x]) : i ∈ xs ∨ i = x := by
  rw [List.mem_append, List.mem_singleton] at h
  exact h

/-- A request starts a job. -/
theorem Inv.spawnRequest (h : Inv s) (hready : s.loop = .ready)
    (hid : s.pending.contains id = false) {task : Task} {slots waiters profileSlot : Semaphore}
    (hslots : s.slots.available = slots.available + task.slots)
    (hwaiters : s.conversationWaiters.available = waiters.available + task.waiters)
    (hprofile : s.profileSlot.available = profileSlot.available + task.profile)
    (hterminals : task.terminals = 0) (howed : task.owed = 1) (hsettled : task.settled = false)
    (hsound : task.Sound id) :
    Inv ({ s with slots, conversationWaiters := waiters, profileSlot,
                  requests := s.requests ++ [id] }.spawn id task) := by
  refine h.spawn hready hid task hslots ?_ hwaiters hprofile hsound s.terminals s.uploads ?_ ?_
  · rw [hterminals, Nat.add_zero]
  · intro i
    rw [count_concat, howed]
    unfold State.asked
    omega
  · intro i hi
    exact (mem_concat hi).imp_right fun heq => ⟨heq, hsettled⟩

/-- A reply that is being sent answers its own request. -/
theorem answers_sending {body : Response} {m n : ℕ} (i : String) :
    (Loop.sending (some body) m n).answers i = (body.id == i) := rfl

/-- A request is answered by the loop. -/
theorem Inv.answerRequest (h : Inv s) (hready : s.loop = .ready) {body : Response}
    (hbody : body.id = id) {slots : Semaphore} {m : ℕ}
    (hslots : s.slots.available = slots.available + m) :
    Inv ({ s with slots, requests := s.requests ++ [id] }.answer body m) := by
  refine h.sending hready hslots rfl ?_ ?_
  · intro i
    rw [count_concat, answers_sending, hbody]
    unfold State.asked
    dsimp only
    by_cases hi : id = i
    · rw [if_pos hi, hi, beq_self_eq_true]
      show _ + 1 ≤ _
      omega
    · rw [if_neg hi, beq_eq_false_iff_ne.mpr hi]
      show _ + 0 ≤ _
      omega
  · intro i hi
    refine (mem_concat hi).imp_right fun heq => ?_
    show (body.id == i) = true
    rw [hbody, heq, beq_self_eq_true]

/-- A conversation that waits for its turn holds one of the waiters. -/
theorem Inv.queuedConversation (h : Inv s) (hready : s.loop = .ready)
    (hid : s.pending.contains id = false) :
    Inv ({ s with requests := s.requests ++ [id] }.queuedConversation id) := by
  unfold State.queuedConversation
  dsimp only
  cases hacquire : s.conversationWaiters.tryAcquire 1 with
  | none => exact h.answerRequest hready rfl rfl
  | some waiters =>
    exact h.spawnRequest hready hid rfl (Semaphore.tryAcquire_eq_some hacquire) rfl rfl rfl
      rfl trivial

/-- A conversation is started, waits, or is refused. -/
theorem Inv.conversation (h : Inv s) (hready : s.loop = .ready)
    (hid : s.pending.contains id = false) (o : Slots) :
    Inv ({ s with requests := s.requests ++ [id] }.conversation id o) := by
  unfold State.conversation
  dsimp only
  cases hacquire : s.slots.tryAcquire 1 with
  | none => exact h.queuedConversation hready hid
  | some slots =>
    dsimp only
    split
    · exact h.spawnRequest hready hid (Semaphore.tryAcquire_eq_some hacquire) rfl rfl rfl rfl rfl
        trivial
    · exact h.queuedConversation hready hid

/-- A request with a slot becomes a task or is answered. -/
theorem Inv.permitted (h : Inv s) (hready : s.loop = .ready) {services : Services} {r : Request}
    {o : Slots} (hid : s.pending.contains r.id = false) {slots : Semaphore}
    (hacquire : s.slots.tryAcquire 1 = some slots) :
    Kept ({ s with requests := s.requests ++ [r.id], slots }.permitted services r o) := by
  have hone := Semaphore.tryAcquire_eq_some hacquire
  have haction : ∀ work, Kept ({ s with requests := s.requests ++ [r.id], slots }.spawn r.id
      (.action work .working)) := by
    intro work
    apply Inv.kept
    exact h.spawnRequest hready hid hone rfl rfl rfl rfl rfl trivial
  unfold State.permitted
  dsimp only
  split
  · cases hprofile : s.profileSlot.tryAcquire 1 with
    | none => exact (h.answerRequest hready rfl hone).kept
    | some profileSlot =>
      apply Inv.kept
      exact h.spawnRequest hready hid hone rfl (Semaphore.tryAcquire_eq_some hprofile) rfl rfl rfl
        trivial
  · split
    · split
      · exact kept_fail
      · exact haction .providers
    · split
      · split
        · split
          · exact haction .workspace
          · exact kept_fail
        · exact kept_fail
      · split
        · split
          · exact haction .session
          · exact (h.answerRequest hready rfl hone).kept
        · exact (h.answerRequest hready rfl hone).kept

/-- **A request arrives.** -/
theorem Inv.request (h : Inv s) (hready : s.loop = .ready) (services : Services) (r : Request)
    (o : Slots) : Kept (s.request services r o) := by
  unfold State.request
  dsimp only
  split
  · exact kept_fail
  · rename_i hpending
    have hid : s.pending.contains r.id = false := Bool.eq_false_iff.mpr hpending
    split
    · split
      · exact kept_fail
      · exact (h.conversation hready hid o).kept
    · cases hacquire : s.slots.tryAcquire 1 with
      | none => exact (h.answerRequest hready rfl rfl).kept
      | some slots => exact h.permitted hready hid hacquire

/-- The loop answers the opening of a terminal. -/
theorem Inv.answerOpen (h : Inv s) (hready : s.loop = .ready) {terminalSlots : Semaphore} {n : ℕ}
    (hterminals : s.terminalSlots.available = terminalSlots.available + n) {body : Response}
    (hbody : body.id = id) :
    Inv { s with opens := s.opens ++ [id], terminalSlots, loop := .sending (some body) 0 n } := by
  refine h.sending hready rfl hterminals ?_ ?_
  · intro i
    rw [count_concat, answers_sending, hbody]
    unfold State.asked
    by_cases hi : id = i
    · rw [if_pos hi, hi, beq_self_eq_true]
      show _ + 1 ≤ _
      omega
    · rw [if_neg hi, beq_eq_false_iff_ne.mpr hi]
      show _ + 0 ≤ _
      omega
  · exact fun i hi => .inl hi

/-- **A terminal is opened.** -/
theorem Inv.terminalOpen (h : Inv s) (hready : s.loop = .ready) (open' : TerminalOpen) :
    Kept (s.terminalOpen open') := by
  unfold State.terminalOpen
  dsimp only
  split
  · exact kept_fail
  · rename_i hpending
    have hid : s.pending.contains open'.id = false := Bool.eq_false_iff.mpr hpending
    cases hacquire : s.terminalSlots.tryAcquire 1 with
    | none => exact (h.answerOpen hready rfl rfl).kept
    | some terminalSlots =>
      have hone := Semaphore.tryAcquire_eq_some hacquire
      dsimp only
      split
      · exact (h.answerOpen hready hone rfl).kept
      · split
        · exact kept_fail
        · apply Inv.kept
          refine h.spawn hready hid (.terminal .opening) rfl hone rfl rfl trivial _ s.uploads ?_ ?_
          · intro i
            rw [count_concat]
            unfold State.asked
            show _ + (if open'.id = i then 1 else 0) ≤ _
            omega
          · exact fun i hi => .inl hi

/-- **An upload starts.** -/
theorem Inv.uploadStart (h : Inv s) (hready : s.loop = .ready) (services : Services)
    (start : UploadStart) (o : Slots) : Kept (s.uploadStart services start o) := by
  unfold State.uploadStart
  split
  · exact kept_fail
  · rename_i hpending
    have hid : s.pending.contains start.id = false := Bool.eq_false_iff.mpr hpending
    split
    · exact (h.sending hready rfl rfl (fun i => Nat.le_refl _) fun i hi => .inl hi).kept
    · split
      · exact kept_fail
      · apply Inv.kept
        refine h.spawn hready hid (.upload .working) rfl rfl rfl rfl trivial s.terminals _ ?_ ?_
        · intro i
          show _ + (if start.id = i then 0 else 0) ≤ _
          rw [ite_self]
          exact Nat.le_refl _
        · exact fun i hi => .inl hi

/-- A cancellation changes no books. -/
theorem Inv.cancel (h : Inv s) (token : Option ℕ) : Inv (s.cancel token) := by
  cases token with
  | none => exact h
  | some token => exact ⟨h.1, h.2, h.3, h.4, h.5, h.6, h.7, h.8, h.9⟩

/-- Nor does input for a terminal. -/
theorem Inv.input (h : Inv s) (token : Option ℕ) (refused : Bool) :
    Inv (s.input token refused) := by
  unfold State.input
  split
  · exact h.cancel token
  · exact h

/-- **A message arrives.** -/
theorem Inv.body (h : Inv s) (hready : s.loop = .ready) (services : Services) (o : Slots)
    (refused : Bool) (body : EnvelopeBody) : Kept (s.body services o refused body) := by
  unfold State.body
  split
  · exact h.request hready services _ o
  · exact h.terminalOpen hready _
  · exact h.uploadStart hready services _ o
  · exact (h.input _ refused).kept
  · exact (h.input _ refused).kept
  · exact (h.input _ refused).kept
  · exact (h.input _ refused).kept
  · exact (h.input _ refused).kept
  · exact (h.input _ refused).kept
  · exact (h.cancel _).kept
  · exact (h.cancel _).kept
  · exact (h.cancel _).kept
  · exact kept_fail

end

section

variable {s : State} {index : ℕ} {job : Job}

/-- What is found at an index is in the list. -/
theorem mem_of_getElem? (h : s.jobs[index]? = some job) : job ∈ s.jobs :=
  List.mem_of_getElem? h

/-- A list of responses with one id. -/
theorem countP_same {sent : List Response} {id i : String} (h : ∀ body ∈ sent, body.id = id) :
    sent.countP (fun r => r.id = i) = if id = i then sent.length else 0 := by
  split
  · rename_i heq
    rw [List.countP_eq_length]
    intro body hbody
    rw [h body hbody, heq, decide_eq_true rfl]
  · rename_i hne
    rw [List.countP_eq_zero]
    intro body hbody
    rw [h body hbody, decide_eq_true_eq]
    exact hne

/-- **A job goes on**: it keeps its id, and the permits it took or dropped are missing from the
    semaphores or back. -/
theorem Inv.set (h : Inv s) (hjob : s.jobs[index]? = some job) (task : Task)
    {slots terminalSlots waiters profileSlot : Semaphore}
    (hslots : s.slots.available + job.task.slots = slots.available + task.slots)
    (hterminals : s.terminalSlots.available + job.task.terminals
      = terminalSlots.available + task.terminals)
    (hwaiters : s.conversationWaiters.available + job.task.waiters =
      waiters.available + task.waiters)
    (hprofile : s.profileSlot.available + job.task.profile = profileSlot.available + task.profile)
    (hsound : task.Sound job.id) {sent : List Response} (hsent : ∀ body ∈ sent, body.id = job.id)
    (howed : sent.length + task.owed ≤ job.task.owed)
    (hsettled : job.task.settled = false → task.settled = true → sent ≠ []) :
    Inv { s with slots, terminalSlots, conversationWaiters := waiters, profileSlot,
                 jobs := s.jobs.set index { job with task }, sent := s.sent ++ sent } := by
  -- jobs keep their places and ids
  have hids : (s.jobs.set index { job with task }).map Job.id = s.jobs.map Job.id := by
    rw [List.map_set]
    refine List.ext_getElem? fun i => ?_
    rw [List.getElem?_set]
    split
    · rename_i heq
      rw [← heq, List.getElem?_map, hjob]
      split
      · rfl
      · rename_i hlt
        rw [List.length_map] at hlt
        exact absurd (List.getElem?_eq_some_iff.mp hjob).1 hlt
    · rfl
  constructor
  · intro id
    show s.pending.contains id = true ↔ id ∈ (s.jobs.set index { job with task }).map Job.id
    rw [hids, h.pending]
  · show ((s.jobs.set index { job with task }).map Job.id).Nodup
    rw [hids]
    exact h.distinct
  · intro other hother
    rcases List.mem_or_eq_of_mem_set hother with hother | rfl
    · exact h.sound other hother
    · exact hsound
  -- for each kind of permit: what the job gave up is available again
  · have heq := h.slots
    have hset : held (fun j : Job => j.task.slots) (s.jobs.set index { job with task })
        + job.task.slots = _ + task.slots := held_set hjob
    show slots.available + held _ (s.jobs.set index { job with task }) + s.loop.slots = requestSlots
    omega
  · have heq := h.terminals
    have hset : held (fun j : Job => j.task.terminals) (s.jobs.set index { job with task })
        + job.task.terminals = _ + task.terminals := held_set hjob
    show terminalSlots.available + held _ (s.jobs.set index { job with task }) + s.loop.terminals
      = maxTerminals
    omega
  · have heq := h.waiters
    have hset : held (fun j : Job => j.task.waiters) (s.jobs.set index { job with task })
        + job.task.waiters = _ + task.waiters := held_set hjob
    show waiters.available + held _ (s.jobs.set index { job with task }) = conversationWaiters
    omega
  · have heq := h.profile
    have hset : held (fun j : Job => j.task.profile) (s.jobs.set index { job with task })
        + job.task.profile = _ + task.profile := held_set hjob
    show profileSlot.available + held _ (s.jobs.set index { job with task }) = 1
    omega
  · intro id
    have hle := h.owed id
    have hset : held (Job.owed id) (s.jobs.set index { job with task }) + job.owed id
        = _ + Job.owed id { job with task } := held_set hjob
    have hnew : Job.owed id { job with task } = if job.id = id then task.owed else 0 := rfl
    have hold : job.owed id = if job.id = id then job.task.owed else 0 := rfl
    show (s.sent ++ sent).countP (fun r => r.id = id)
      + held (Job.owed id) (s.jobs.set index { job with task }) +
        (s.loop.answers id).toNat ≤ s.asked id
    -- only answers to the request of this job were sent
    rw [List.countP_append, countP_same hsent]
    unfold State.responses at hle
    rw [hnew, hold] at hset
    split at hset
    · rename_i heq
      rw [if_pos heq]
      omega
    · rename_i hne
      rw [if_neg hne]
      omega
  · intro id hid
    have hgrow : 0 < s.responses id → 0 < (s.sent ++ sent).countP (fun r => r.id = id) := by
      intro hpos
      rw [List.countP_append]
      exact Nat.lt_of_lt_of_le hpos (Nat.le_add_right _ _)
    rcases h.answered id hid with hsome | hloop | ⟨other, hother, hotherId, hopen⟩
    · exact .inl (hgrow hsome)
    · exact .inr (.inl hloop)
    -- a request is answered now, or its job is still open
    · by_cases heq : other = job
      · subst heq
        cases hnew : task.settled with
        | true =>
          left
          show 0 < (s.sent ++ sent).countP (fun r => r.id = id)
          rw [List.countP_append, countP_same hsent, if_pos hotherId]
          have := List.length_pos_of_ne_nil (hsettled hopen hnew)
          omega
        | false =>
          refine .inr (.inr ⟨{ other with task }, ?_, hotherId, hnew⟩)
          exact List.mem_set (List.getElem?_eq_some_iff.mp hjob).1 _
      · refine .inr (.inr ⟨other, ?_, hotherId, hopen⟩)
        obtain ⟨i, hi⟩ := List.mem_iff_getElem?.mp hother
        refine List.mem_iff_getElem?.mpr ⟨i, ?_⟩
        rw [List.getElem?_set, if_neg, hi]
        rintro rfl
        exact heq (Option.some.inj (hi.symm.trans hjob))

/-- The semaphore hands over a permit. -/
theorem Inv.grant (h : Inv s) (hjob : s.jobs[index]? = some job) : Inv (s.grant index job) := by
  unfold State.grant
  split
  · rename_i a slots htask hacquire
    split
    · exact h
    · rename_i hnone
      simp only [Bool.or_eq_true, not_or, Bool.not_eq_true] at hnone
      have hone := Semaphore.tryAcquire_eq_some hacquire
      have hslots : job.task.slots = 0 := by
        rw [htask]
        show a.request.toNat + a.granted.toNat = 0
        rw [hnone.1, hnone.2]
        rfl
      have hnew : Task.slots (.conversation { a with granted := true } false .working) = 1 := by
        show a.request.toNat + 1 = 1
        rw [hnone.1]
        rfl
      have hset : Inv { s with
          slots
          sent := s.sent ++ []
          jobs := s.jobs.set index
            { job with task := .conversation { a with granted := true } false .working } } :=
        h.set hjob (.conversation { a with granted := true } false .working)
          (by rw [hslots, hnew]; omega) (by rw [htask]; rfl) (by rw [htask]; rfl)
          (by rw [htask]; rfl) trivial nofun (by rw [htask]; exact Nat.le_refl _) nofun
      rw [List.append_nil] at hset
      exact hset
  · exact h

/-- **A job goes on.** -/
theorem Inv.advance (h : Inv s) (hstop : s.stop = false) (event : JobEvent) :
    Inv (s.advance index event) := by
  unfold State.advance
  cases hjob : s.jobs[index]? with
  | none => exact h
  | some job =>
    dsimp only
    split
    · exact h.grant hjob
    · split
      · exact h
      · rename_i e he
        have hspec := Task.next_spec (h.sound job (mem_of_getElem? hjob)) he
        refine h.set hjob e.task ?_ ?_ ?_ ?_ hspec.sound ?_ hspec.owed ?_
        · rw [hspec.slots, Semaphore.available_release]; omega
        · rw [hspec.terminals, Semaphore.available_release]; omega
        · rw [hspec.waiters, Semaphore.available_release]; omega
        · rw [hspec.profile, Semaphore.available_release]; omega
        · intro body hbody
          exact hspec.sent body (Option.mem_toList.mp hbody)
        · intro hopen hsettled hnil
          obtain ⟨body, hbody⟩ := Option.isSome_iff_exists.mp (hspec.settled hstop hopen hsettled)
          rw [hbody] at hnil
          cases hnil

end

/-! ### Joins and answers of the loop

A job that is over leaves the map and the link; an error of a job stops the link. -/

/-- A job that is over holds nothing and has answered. -/
theorem Task.over_ok {t : Task} {id : String} (hsound : t.Sound id)
    (h : t.over = some (.ok (.ok ()))) :
    t.slots = 0 ∧ t.terminals = 0 ∧ t.waiters = 0 ∧ t.profile = 0 ∧ t.owed = 0 ∧
      t.settled = true := by
  have hok : ∀ result : Except Error Unit,
      some (.ok result : Except Unit (Except Error Unit)) = some (.ok (.ok ())) →
      result = .ok () := fun result heq => Except.ok.inj (Option.some.inj heq)
  cases t with
  | action work phase =>
    cases phase with
    | finished result =>
      rw [hok result h]
      exact ⟨rfl, rfl, rfl, rfl, rfl, rfl⟩
    | _ => cases h
  | conversation a admitted phase =>
    cases phase with
    | finished result =>
      rw [hok result h]
      exact ⟨rfl, rfl, rfl, rfl, rfl, rfl⟩
    | _ => cases h
  | profiles worker phase =>
    cases phase with
    | finished result =>
      rw [hok result h] at hsound ⊢
      cases worker with
      | true => exact hsound.elim
      | false => exact ⟨rfl, rfl, rfl, rfl, rfl, rfl⟩
    | _ => cases h
  | terminal stage =>
    cases stage with
    | finished result => exact ⟨rfl, rfl, rfl, rfl, rfl, rfl⟩
    | _ => cases h
  | upload phase => exact ⟨rfl, rfl, rfl, rfl, rfl, rfl⟩

section

variable {s : State}

/-- **A job is joined.** -/
theorem Inv.join (h : Inv s) (index : ℕ) : Kept (s.join index) := by
  unfold State.join
  cases hjob : s.jobs[index]? with
  | none => exact h.kept
  | some job =>
    dsimp only
    split
    · exact h.kept
    · exact kept_fail
    · rename_i result hover
      cases result with
      | error err => exact kept_fail
      | ok u =>
        -- a job that is over holds no permit and owes no answer
        apply Inv.kept
        have hmem := mem_of_getElem? hjob
        obtain ⟨hslots, hterminals, hwaiters, hprofile, howed, hsettled⟩ :=
          Task.over_ok (h.sound job hmem) hover
        have hsub : ∀ other ∈ s.jobs.eraseIdx index, other ∈ s.jobs := fun other hother =>
          (List.eraseIdx_sublist s.jobs index).subset hother
        -- the ids are distinct: the other jobs are those with another id
        have hothers : ∀ id, id ∈ (s.jobs.eraseIdx index).map Job.id ↔
            id ≠ job.id ∧ id ∈ s.jobs.map Job.id := by
          intro id
          have hperm : (s.jobs.map Job.id).Perm (job.id :: (s.jobs.eraseIdx index).map Job.id) := by
            have hlt := (List.getElem?_eq_some_iff.mp hjob).1
            have hget := (List.getElem?_eq_some_iff.mp hjob).2
            have hcons := (List.getElem_cons_eraseIdx_perm hlt).symm.map Job.id
            rw [hget] at hcons
            exact hcons
          have hnodup := hperm.nodup_iff.mp h.distinct
          rw [hperm.mem_iff, List.mem_cons]
          rw [List.nodup_cons] at hnodup
          constructor
          · intro hid
            refine ⟨?_, .inr hid⟩
            rintro rfl
            exact hnodup.1 hid
          · rintro ⟨hne, heq | hid⟩
            · exact absurd heq hne
            · exact hid
        constructor
        · intro id
          show (s.pending.erase job.id).contains id = true ↔ id ∈ (s.jobs.eraseIdx index).map Job.id
          rw [contains_erase, h.pending, hothers]
        · exact h.distinct.sublist ((List.eraseIdx_sublist s.jobs index).map Job.id)
        · exact fun other hother => h.sound other (hsub other hother)
        · have heq := h.slots
          have herase : held (fun j : Job => j.task.slots) s.jobs = job.task.slots + _ :=
            held_eraseIdx hjob
          show s.slots.available + held _ (s.jobs.eraseIdx index) + s.loop.slots = requestSlots
          omega
        · have heq := h.terminals
          have herase : held (fun j : Job => j.task.terminals) s.jobs = job.task.terminals + _ :=
            held_eraseIdx hjob
          show s.terminalSlots.available + held _ (s.jobs.eraseIdx index) + s.loop.terminals
            = maxTerminals
          omega
        · have heq := h.waiters
          have herase : held (fun j : Job => j.task.waiters) s.jobs = job.task.waiters + _ :=
            held_eraseIdx hjob
          show s.conversationWaiters.available +
            held _ (s.jobs.eraseIdx index) = conversationWaiters
          omega
        · have heq := h.profile
          have herase : held (fun j : Job => j.task.profile) s.jobs = job.task.profile + _ :=
            held_eraseIdx hjob
          show s.profileSlot.available + held _ (s.jobs.eraseIdx index) = 1
          omega
        · intro id
          have hle := h.owed id
          have herase : held (Job.owed id) s.jobs = job.owed id + _ := held_eraseIdx hjob
          show s.responses id + held (Job.owed id) (s.jobs.eraseIdx index)
            + (s.loop.answers id).toNat ≤ s.asked id
          omega
        · intro id hid
          rcases h.answered id hid with hsent | hloop | ⟨other, hother, hotherId, hopen⟩
          · exact .inl hsent
          · exact .inr (.inl hloop)
          -- a job that is not over is another one
          · refine .inr (.inr ⟨other, ?_, hotherId, hopen⟩)
            obtain ⟨i, hi⟩ := List.mem_iff_getElem?.mp hother
            refine List.mem_eraseIdx_iff_getElem?.mpr ⟨i, ?_, hi⟩
            rintro rfl
            have hsame := Option.some.inj (hi.symm.trans hjob)
            rw [hsame, hsettled] at hopen
            cases hopen

/-- What the loop sends is what it answers. -/
theorem countP_body (body : Option Response) (m n : ℕ) (id : String) :
    body.toList.countP (fun r => r.id = id) = ((Loop.sending body m n).answers id).toNat := by
  cases body with
  | none => rfl
  | some body =>
    rw [answers_sending, Option.toList_some, List.countP_singleton]
    by_cases h : body.id = id
    · rw [h, beq_self_eq_true, decide_eq_true rfl]
      rfl
    · rw [beq_eq_false_iff_ne.mpr h, decide_eq_false h]
      rfl

/-- **The `send` of the loop returns.** -/
theorem Inv.replied (h : Inv s) (result : Except Error Unit) (delivered : Bool) :
    Kept (s.replied result delivered) := by
  unfold State.replied
  cases hloop : s.loop with
  | ready => exact h.kept
  | ended r => exact h.kept
  | sending body m n =>
    cases result with
    | error err => exact kept_fail
    | ok u =>
      apply Inv.kept
      -- what the loop was sending is among the answers now
      have hcount : ∀ id, (s.sent ++ body.toList).countP (fun r => r.id = id)
          = s.responses id + (s.loop.answers id).toNat := by
        intro id
        rw [List.countP_append, countP_body body m n id, hloop]
        rfl
      constructor
      · exact h.pending
      · exact h.distinct
      · exact h.sound
      · have heq := h.slots
        rw [hloop] at heq
        show s.slots.available + m +
          held (fun job : Job => job.task.slots) s.jobs + 0 = requestSlots
        have hheld : Loop.slots (.sending body m n) = m := rfl
        omega
      · have heq := h.terminals
        rw [hloop] at heq
        show s.terminalSlots.available + n + held (fun job : Job => job.task.terminals) s.jobs + 0
          = maxTerminals
        have hheld : Loop.terminals (.sending body m n) = n := rfl
        omega
      · exact h.waiters
      · exact h.profile
      · intro id
        have hle := h.owed id
        show (s.sent ++ body.toList).countP (fun r => r.id = id) + held (Job.owed id) s.jobs + 0
          ≤ s.asked id
        rw [hcount]
        omega
      · intro id hid
        show 0 < (s.sent ++ body.toList).countP (fun r => r.id = id) ∨ false = true ∨ _
        rw [hcount]
        rcases h.answered id hid with hsent | hanswers | hjob
        · exact .inl (Nat.lt_of_lt_of_le hsent (Nat.le_add_right _ _))
        · left
          rw [hanswers]
          exact Nat.succ_pos _
        · exact .inr (.inr hjob)

end

section

variable {μ : Type} {services : Services} {legacy : Legacy μ} {protocol : Negotiated} {s : State}

/-- **Step lemma** for a frame of the second protocol. -/
theorem Inv.envelope (h : Inv s) (hready : s.loop = .ready) (o : Slots) (refused : Bool)
    (e : Envelope) : Kept (s.envelope services o refused e) := by
  unfold State.envelope
  split
  · exact kept_fail
  · exact h.body hready services o refused _

/-- **Step lemma** for whatever the socket delivers. -/
theorem Inv.receive (h : Inv s) (hready : s.loop = .ready) (o : Slots) (refused : Bool)
    (incoming : Incoming μ) : Kept (s.receive services legacy protocol o refused incoming) := by
  unfold State.receive
  split
  · split
    · exact h.envelope hready o refused _
    · exact kept_fail
  · split
    · split
      · exact h.envelope hready o refused _
      · split
        · exact (h.answerRequest hready rfl rfl).kept
        · exact kept_fail
    · exact kept_fail
  · exact kept_fail

/-- A conversation does not undo a stop. -/
theorem stop_conversation (h : s.stop = true) (id : String) (o : Slots) :
    (s.conversation id o).stop = true := by
  have hqueued : (s.queuedConversation id).stop = true := by
    unfold State.queuedConversation
    split
    · exact h
    · exact h
  unfold State.conversation
  split
  · exact hqueued
  · split
    · exact h
    · exact hqueued

/-- A request with a slot does not undo a stop. -/
theorem stop_permitted (h : s.stop = true) (r : Request) (o : Slots) :
    (s.permitted services r o).stop = true := by
  unfold State.permitted
  dsimp only
  repeat' split
  all_goals first | exact h | rfl

/-- No frame undoes a stop. -/
theorem stop_body (h : s.stop = true) (o : Slots) (refused : Bool) (body : EnvelopeBody) :
    (s.body services o refused body).stop = true := by
  -- neither a cancellation nor an input clears the flag
  have hcancel : ∀ token, (s.cancel token).stop = true := by
    intro token
    cases token <;> exact h
  have hinput : ∀ token, (s.input token refused).stop = true := by
    intro token
    unfold State.input
    split
    · exact hcancel token
    · exact h
  cases body with
  | request r =>
    show (s.request services r o).stop = true
    unfold State.request
    dsimp only
    split
    · rfl
    · split
      · split
        · rfl
        · apply stop_conversation
          exact h
      · split
        · exact h
        · apply stop_permitted
          exact h
  | terminalOpen open' =>
    show (s.terminalOpen open').stop = true
    unfold State.terminalOpen
    dsimp only
    repeat' split
    all_goals first | exact h | rfl
  | uploadStart start =>
    show (s.uploadStart services start o).stop = true
    unfold State.uploadStart
    repeat' split
    all_goals first | exact h | rfl
  | _ => first | exact hinput _ | exact hcancel _ | rfl

/-- A link that is stopped stays so. -/
theorem stop_step (h : s.stop = true) (event : Event μ) :
    (s.step services legacy protocol event).stop = true := by
  unfold State.step
  split
  · rfl
  · rfl
  · unfold State.receive State.envelope
    repeat' split
    all_goals first | exact stop_body h _ _ _ | exact h | rfl
  · unfold State.replied
    repeat' split
    all_goals first | exact h | rfl
  · unfold State.join
    repeat' split
    all_goals first | exact h | rfl
  · unfold State.advance State.grant
    repeat' split
    all_goals exact h
  · exact h

/-- **Every step of the link keeps the invariant.** -/
theorem Inv.step (h : Inv s) (hstop : s.stop = false) (event : Event μ) :
    Kept (s.step services legacy protocol event) := by
  unfold State.step
  split
  · nofun
  · exact kept_fail
  · exact h.receive (by assumption) _ _ _
  · exact h.replied _ _
  · exact h.join _
  · exact (h.advance hstop _).kept
  · exact h.kept

end

/-! ### Runs

By induction on the events; a link that is stopped stays stopped, and then nothing is promised. -/

/-- The id under which a message starts a job. -/
def startId : EnvelopeBody → Option String
  | .request r => some r.id
  | .terminalOpen open' => some open'.id
  | .uploadStart start => some start.id
  | _ => none

section

variable {μ : Type} (services : Services) (legacy : Legacy μ) (protocol : Negotiated)

/-- The message would start a job under this id, or is a legacy request with it. -/
def Starts (id : String) : Incoming μ → Prop
  | .protobuf e => protocol = .protobufV2 ∧ ∃ body ∈ e.body, startId body = some id
  | .json value => protocol = .jsonV1 ∧
    match legacy.fromJson value with
    | .ok e => ∃ body ∈ e.body, startId body = some id
    | .error _ => legacy.id value = id
  | .error _ => False

variable {services legacy protocol} {s : State}

/-- **Run lemma.** The books are right after every run. -/
theorem inv_run (events : List (Event μ)) : Kept (run services legacy protocol events) := by
  have hfold : ∀ s : State, Kept s →
      Kept (events.foldl (State.step services legacy protocol) s) := by
    induction events with
    | nil => exact fun s hs => hs
    | cons event events ih =>
      intro s hs
      rw [List.foldl_cons]
      refine ih _ fun hstop => ?_
      have hbefore : s.stop = false := by
        rw [Bool.eq_false_iff]
        intro htrue
        rw [stop_step htrue event] at hstop
        cases hstop
      exact (hs hbefore).step hbefore event hstop
  exact hfold .init inv_init.kept

/-- A second message with the id of a job ends the link. -/
theorem body_pending {id : String} (hid : s.pending.contains id = true) (o : Slots) (refused : Bool)
    {body : EnvelopeBody} (hbody : startId body = some id) :
    (s.body services o refused body).loop = .ended (.error .protocol) ∧
      (s.body services o refused body).jobs = s.jobs := by
  cases body with
  | request r =>
    cases hbody
    show (s.request services r o).loop = _ ∧ (s.request services r o).jobs = _
    unfold State.request
    dsimp only
    rw [if_pos hid]
    exact ⟨rfl, rfl⟩
  | terminalOpen open' =>
    cases hbody
    show (s.terminalOpen open').loop = _ ∧ (s.terminalOpen open').jobs = _
    unfold State.terminalOpen
    dsimp only
    rw [if_pos hid]
    exact ⟨rfl, rfl⟩
  | uploadStart start =>
    cases hbody
    show (s.uploadStart services start o).loop = _ ∧ (s.uploadStart services start o).jobs = _
    unfold State.uploadStart
    rw [if_pos hid]
    exact ⟨rfl, rfl⟩
  | _ => cases hbody

/-- A request whose id is pending ends the connection, and starts nothing. -/
theorem receive_pending {id : String} (hid : s.pending.contains id = true) (o : Slots)
    (refused : Bool) {incoming : Incoming μ} (h : Starts legacy protocol id incoming) :
    (s.receive services legacy protocol o refused incoming).loop = .ended (.error .protocol) ∧
      (s.receive services legacy protocol o refused incoming).jobs = s.jobs := by
  have henvelope : ∀ e : Envelope, (∃ body ∈ e.body, startId body = some id) →
      (s.envelope services o refused e).loop = .ended (.error .protocol) ∧
        (s.envelope services o refused e).jobs = s.jobs := by
    rintro e ⟨body, hsome, hbody⟩
    unfold State.envelope
    rw [hsome]
    exact body_pending hid o refused hbody
  unfold State.receive
  cases incoming with
  | protobuf e =>
    obtain ⟨hprotocol, hstarts⟩ := h
    dsimp only
    rw [if_pos hprotocol]
    exact henvelope e hstarts
  | json value =>
    obtain ⟨hprotocol, hstarts⟩ := h
    dsimp only
    rw [if_pos hprotocol]
    cases hjson : legacy.fromJson value with
    | ok e =>
      rw [hjson] at hstarts
      exact henvelope e hstarts
    | error err =>
      -- a legacy request with this id is a duplicate and not recoverable
      rw [hjson] at hstarts
      have hdup :
        recoverableLegacyAction legacy value (s.pending.contains (legacy.id value)) = false := by
        unfold recoverableLegacyAction
        rw [show legacy.id value = id from hstarts, hid, Bool.not_true, Bool.and_false]
      dsimp only
      rw [if_neg]
      · exact ⟨rfl, rfl⟩
      · rw [hdup]
        exact fun hand => Bool.false_ne_true hand.2
  | error isProtocol => exact h.elim

/-- The request is in the hands of a job or of the loop. -/
def Taken (s : State) (id : String) (s' : State) : Prop :=
  s'.stop = s.stop ∧ (s'.loop.answers id = true ∨ ∃ job ∈ s'.jobs, job.id = id)

/-- A request for which a task is spawned is taken. -/
theorem taken_spawn {t : State} (hstop : t.stop = s.stop) (id : String) (task : Task) :
    Taken s id (t.spawn id task) :=
  ⟨hstop, .inr ⟨_, List.mem_append_right _ (List.mem_singleton_self _), rfl⟩⟩

/-- A request that is answered at once is taken. -/
theorem taken_answer {t : State} (hstop : t.stop = s.stop) {id : String} {body : Response}
    (hbody : body.id = id) (m : ℕ) : Taken s id (t.answer body m) :=
  ⟨hstop, .inl (by show (body.id == id) = true; rw [hbody, beq_self_eq_true])⟩

/-- A conversation is taken: it is answered at once, or a task is spawned. -/
theorem taken_conversation {t : State} (hstop : t.stop = s.stop) (id : String) (o : Slots) :
    Taken s id (t.conversation id o) := by
  have hqueued : Taken s id (t.queuedConversation id) := by
    unfold State.queuedConversation
    split
    · exact taken_answer hstop rfl 0
    · exact taken_spawn hstop id _
  unfold State.conversation
  split
  · exact hqueued
  · split
    · exact taken_spawn hstop id _
    · exact hqueued

/-- With a slot every valid request is taken. -/
theorem taken_permitted {t : State} (hstop : t.stop = s.stop) {r : Request}
    (hvalid : validateRequest r = .ok ()) (o : Slots) :
    Taken s r.id (t.permitted services r o) := by
  obtain ⟨op, payload, hop, hpayload, hmatches, -, hlimits⟩ := validateRequest_ok hvalid
  unfold State.permitted
  dsimp only
  rw [hop, hpayload]
  split
  · split
    · exact taken_answer hstop rfl 1
    · exact taken_spawn hstop r.id _
  · split
    · exact taken_spawn hstop r.id _
    · split
      · -- the payload of the operation is an edit of the tabs, and a valid one
        rename_i hworkspace
        simp only [Bool.and_eq_true, decide_eq_true_eq, Option.some.injEq] at hworkspace
        rw [hworkspace.1] at hmatches
        cases payload with
        | workspace x =>
          have hall : (x.change.all fun c => (workspaceChangeFromProto c).isOk) = true :=
            require_ok.mp hlimits
          dsimp only
          split
          · exact taken_spawn hstop r.id _
          · rename_i err herr
            cases hchange : x.change with
            | none => rw [hchange] at herr; cases herr
            | some c =>
              rw [hchange] at herr hall
              cases hc : workspaceChangeFromProto c with
              | ok change =>
                simp only [Option.mapM_some, hc] at herr
                cases herr
              | error e' =>
                rw [Option.all_some, hc] at hall
                cases hall
        | _ => cases hmatches
      · split
        · split
          · exact taken_spawn hstop r.id _
          · exact taken_answer hstop rfl 1
        · exact taken_answer hstop rfl 1

/-- **A request that the decoder accepts** and whose id is not in use is served or answered. -/
theorem request_taken {r : Request} (hvalid : validateRequest r = .ok ())
    (hid : s.pending.contains r.id = false) (o : Slots) :
    Taken s r.id (s.request services r o) := by
  obtain ⟨op, payload, hop, -, -, hsession, -⟩ := validateRequest_ok hvalid
  unfold State.request
  dsimp only
  rw [if_neg (Bool.eq_false_iff.mp hid), hop]
  split
  · rename_i hconversation
    simp only [Bool.and_eq_true, decide_eq_true_eq, Option.some.injEq] at hconversation
    rw [if_neg]
    · exact taken_conversation rfl r.id o
    · rw [Option.isNone_iff_eq_none]
      exact hsession hconversation.1
  · split
    · exact taken_answer rfl rfl 0
    · exact taken_permitted rfl hvalid o

/-- **Home answers every request once.**  On a link that is not stopped, whatever happened on it so
    far:

    * a request whose id was used once and that neither a job nor the loop still has was answered by
      exactly one response, and a response carries the id of a request or of a terminal, never more
      often than it was asked for;
    * `pending` has the ids of the jobs that are not joined, no two of which are the same; a message
      that would start another job under such an id ends the link, and a request that the decoder
      accepts and that has another id is served or answered;
    * the permits that are not available are held by jobs, or by the loop while it sends an answer
      of its own. -/
theorem answered_once (services : Services) (legacy : Legacy μ) (protocol : Negotiated)
    (events : List (Event μ)) (s : State) (hs : s = run services legacy protocol events)
    (hstop : s.stop = false) :
    ((∀ id ∈ s.requests, s.asked id = 1 → s.pending.contains id = false →
        s.loop.answers id = false → s.responses id = 1) ∧
      (∀ id, s.responses id ≤ s.asked id) ∧
      ∀ r ∈ s.sent, r.id ∈ s.requests ∨ r.id ∈ s.opens) ∧
    ((∀ id, s.pending.contains id = true ↔ ∃ job ∈ s.jobs, job.id = id) ∧
      (s.jobs.map Job.id).Nodup ∧
      (∀ id o refused incoming, s.pending.contains id = true → Starts legacy protocol id incoming →
        (s.receive services legacy protocol o refused incoming).loop = .ended (.error .protocol) ∧
          (s.receive services legacy protocol o refused incoming).jobs = s.jobs) ∧
      ∀ r o, validateRequest r = .ok () → s.pending.contains r.id = false →
        Taken s r.id (s.request services r o)) ∧
    (s.jobs = [] → s.slots.available + s.loop.slots = requestSlots ∧
      s.terminalSlots.available + s.loop.terminals = maxTerminals ∧
      s.conversationWaiters.available = conversationWaiters ∧ s.profileSlot.available = 1) := by
  -- everything is read off the invariant of a run that was not stopped
  have h : Inv s := by
    rw [hs] at hstop ⊢
    exact inv_run events hstop
  refine ⟨⟨?_, ?_, ?_⟩, ⟨?_, h.distinct, ?_, ?_⟩, ?_⟩
  · intro id hid hasked hpending hloop
    -- answered at most once by the count, at least once since no job is left
    have hle := h.owed id
    have hpos : 0 < s.responses id := by
      rcases h.answered id hid with hsent | hanswers | ⟨job, hjob, hjobId, -⟩
      · exact hsent
      · rw [hloop] at hanswers
        cases hanswers
      · rw [(h.pending id).mpr (List.mem_map.mpr ⟨job, hjob, hjobId⟩)] at hpending
        cases hpending
    omega
  · intro id
    have hle := h.owed id
    omega
  · intro r hr
    have hle := h.owed r.id
    have hpos : 0 < s.responses r.id := List.countP_pos_iff.mpr ⟨r, hr, decide_eq_true rfl⟩
    have hasked : 0 < s.requests.count r.id + s.opens.count r.id := by
      show 0 < s.asked r.id
      omega
    rcases Nat.add_pos_iff_pos_or_pos.mp hasked with hcount | hcount
    · exact .inl (List.count_pos_iff.mp hcount)
    · exact .inr (List.count_pos_iff.mp hcount)
  · intro id
    rw [h.pending id, List.mem_map]
  · exact fun id o refused incoming hid hstarts => receive_pending hid o refused hstarts
  · exact fun r o hvalid hid => request_taken hvalid hid o
  · intro hjobs
    have hslots := h.slots
    have hterminals := h.terminals
    have hwaiters := h.waiters
    have hprofile := h.profile
    rw [hjobs, held_nil] at hslots hterminals hwaiters hprofile
    exact ⟨hslots, hterminals, hwaiters, hprofile⟩

end

namespace AnsweredExample

def services : Services := ⟨true, true, true, true, true⟩

/-- The link speaks protobuf: nothing of the legacy codec is used. -/
def legacy : Legacy Unit :=
  ⟨fun _ => "", fun _ => "", fun _ => "", fun _ => false, fun _ => .error .fields⟩

def ask (id : String) (operation : Int32) : Event Unit :=
  .receive (.protobuf ⟨2, some (.request ⟨id, operation, some ⟨"$1", 1⟩, some (.empty ⟨⟩)⟩)⟩)
    ⟨true, true, true⟩ false

/-- The profiles are read; a second request for them finds the slot taken; a conversation is
    cancelled before it is admitted. -/
def events : List (Event Unit) :=
  [ask "a" 1, ask "b" 1, .replied (.ok ()) true, ask "c" 5,
    .receive (.protobuf ⟨2, some (.cancel ⟨"c"⟩)⟩) ⟨true, true, true⟩ false,
    .job 1 .notice, .job 1 (.sent (.ok ()) true), .join 1,
    .job 0 .workerDone, .job 0 (.profiled (.ok ⟨[]⟩)), .job 0 (.sent (.ok ()) true),
    .job 0 .drained, .join 0]

/-- Three requests, three responses, and all permits are back. -/
theorem three_answered :
    ∃ s : State, s = run services legacy .protobufV2 events ∧ s.jobs.length = 0 ∧
      (s.responses "a" = 1 ∧ s.responses "b" = 1 ∧ s.responses "c" = 1) ∧
      s.slots.available = requestSlots ∧ s.profileSlot.available = 1 := by
  have hfacts : (run services legacy .protobufV2 events).stop = false ∧
      (run services legacy .protobufV2 events).requests = ["a", "b", "c"] ∧
      (run services legacy .protobufV2 events).opens = [] ∧
      (run services legacy .protobufV2 events).jobs.length = 0 ∧
      (run services legacy .protobufV2 events).loop.slots = 0 ∧
      ∀ id ∈ ["a", "b", "c"],
        (run services legacy .protobufV2 events).pending.contains id = false ∧
          (run services legacy .protobufV2 events).loop.answers id = false := by
    decide
  obtain ⟨hstop, hrequests, hopens, hjobs, hloop, hfree⟩ := hfacts
  obtain ⟨⟨hone, -, -⟩, -, hpermits⟩ :=
    answered_once services legacy .protobufV2 events _ rfl hstop
  have hresponses : ∀ id ∈ ["a", "b", "c"],
      (run services legacy .protobufV2 events).responses id = 1 := by
    intro id hid
    refine hone id (hrequests ▸ hid) ?_ (hfree id hid).1 (hfree id hid).2
    unfold State.asked
    rw [hrequests, hopens]
    revert id hid
    decide
  obtain ⟨hslots, -, -, hprofile⟩ := hpermits (List.length_eq_zero_iff.mp hjobs)
  rw [hloop, Nat.add_zero] at hslots
  exact ⟨_, rfl, hjobs, ⟨hresponses "a" (by decide), hresponses "b" (by decide),
    hresponses "c" (by decide)⟩, hslots, hprofile⟩

end AnsweredExample

end Hmux.Home
