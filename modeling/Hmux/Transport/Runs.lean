import Mathlib.Logic.Relation
import Hmux.Transport.Line

namespace Hmux.Transport

open Hmux.Lib

/-!
# Runs of a connection

A run starts with `start` and then goes through any moves of its callers, its writer, its clock
and its tokens, in any order.  `step_moved` says what a move does to the line of jobs and to
what only grows; the invariant of every state is a balance of permits and the line's own
invariant.

* `Link.Inv`, `Reachable.inv` — the invariant along every run;
* `frames_accounted` — permits, order, receipts and passed-over jobs in every state of a run.
-/

namespace Link

variable {w w' w'' : Link} {i : ℕ} {r : Reservation}

/-- The writer will pass over the job: its caller gave it up, or it waited too long. -/
def Doomed (w : Link) (job : Job) : Prop := w.givenUp job = true ∨ job.expires ≤ w.clock

/-- What only grows. -/
structure Later (w w' : Link) : Prop where
  dropped : w.dropped ⊆ w'.dropped
  cancelled : w.cancelled ⊆ w'.cancelled
  clock : w.clock ≤ w'.clock
  stopped : w.stopped = true → w'.stopped = true

/-- A moment is no earlier than itself. -/
theorem Later.refl (w : Link) : Later w w :=
  ⟨List.Subset.refl _, List.Subset.refl _, Nat.le_refl _, id⟩

/-- What a move leaves alone did not shrink. -/
theorem Later.same (hdropped : w'.dropped = w.dropped) (hcancelled : w'.cancelled = w.cancelled)
    (hclock : w'.clock = w.clock) (hstopped : w'.stopped = w.stopped) : Later w w' :=
  ⟨hdropped ▸ List.Subset.refl _, hcancelled ▸ List.Subset.refl _, hclock.ge,
    fun hs => hstopped.trans hs⟩

/-- Later than a later one is later. -/
theorem Later.trans (h : Later w w') (h' : Later w' w'') : Later w w'' :=
  ⟨fun _ hm => h'.dropped (h.dropped hm), fun _ hm => h'.cancelled (h.cancelled hm),
    h.clock.trans h'.clock, fun hs => h'.stopped (h.stopped hs)⟩

/-- A job that is to be passed over stays so. -/
theorem Later.doomed {job : Job} (h : Later w w') (hd : w.Doomed job) : w'.Doomed job := by
  rcases hd with hd | hd
  · refine .inl ?_
    rw [givenUp, Bool.or_eq_true, Bool.and_eq_true, decide_eq_true_eq] at hd ⊢
    rcases hd with hd | ⟨hreply, hd⟩
    · refine .inl ?_
      unfold isCancelled at hd ⊢
      cases htoken : job.cancelled with
      | none => rw [htoken] at hd; cases hd
      | some token =>
        rw [htoken] at hd
        exact decide_eq_true (h.cancelled (of_decide_eq_true hd))
    · exact .inr ⟨hreply, h.dropped hd⟩
  · exact .inr (hd.trans h.clock)

/-- The line did not change. -/
structure Still (w w' : Link) : Prop where
  line : w'.line = w.line
  later : Later w w'

/-- At most one job was submitted. -/
structure Submits (w w' : Link) : Prop where
  line : w'.line = w.line ∨ ∃ job queue, job.id = w.accepted.length ∧
    w.queue.trySend job = some queue ∧
    w'.line = { w.line with queue, accepted := w.accepted ++ [job] }
  later : Later w w'

/-- A move that changes no job submits none. -/
theorem Still.submits (h : Still w w') : Submits w w' := ⟨.inl h.line, h.later⟩

/-- Nothing moves. -/
theorem Still.refl (w : Link) : Still w w := ⟨rfl, .refl w⟩

/-- Two such moves are one. -/
theorem Still.trans (h : Still w w') (h' : Still w' w'') : Still w w'' :=
  ⟨h'.line.trans h.line, h.later.trans h'.later⟩

/-- A job may be submitted after such a move. -/
theorem Still.then (h : Still w w') (h' : Submits w' w'') : Submits w w'' := by
  refine ⟨?_, h.later.trans h'.later⟩
  have hqueue : w'.queue = w.queue := congrArg Line.queue h.line
  have haccepted : w'.accepted = w.accepted := congrArg Line.accepted h.line
  have hline := h'.line
  rw [h.line, hqueue, haccepted] at hline
  exact hline

/-- A job may be submitted before such a move. -/
theorem Submits.then (h : Submits w w') (h' : Still w' w'') : Submits w w'' := by
  refine ⟨?_, h.later.trans h'.later⟩
  rw [h'.line]
  exact h.line

/-- Giving permits back touches no job. -/
theorem giveBack_still (w : Link) (s b : ℕ) : Still w (w.giveBack s b) :=
  ⟨rfl, .same rfl rfl rfl rfl⟩

/-- Closing touches no job. -/
theorem close_still (w : Link) : Still w w.close :=
  ⟨rfl, List.Subset.refl _, List.Subset.refl _, Nat.le_refl _, fun _ => rfl⟩

/-! ### Callers

The calls that admit or submit leave the line as it is or put one job at its end. -/

/-- Taking a reservation touches no job. -/
theorem tryReserve_still {n : ℕ} (h : w.tryReserve n = .ok (r, w')) : Still w w' := by
  obtain ⟨slots, bytes, -, -, -, rfl⟩ := tryReserve_ok h
  exact ⟨rfl, .same rfl rfl rfl rfl⟩

/-- Asking for a reservation touches no job. -/
theorem reserve_still (w : Link) (n token : ℕ) : Still w (w.reserve n token) := by
  unfold reserve
  split
  · rename_i r w' h
    have hstill := tryReserve_still h
    exact hstill.trans ⟨rfl, .same rfl rfl rfl rfl⟩
  · exact ⟨rfl, .same rfl rfl rfl rfl⟩
  · exact .refl w

/-- A slot for a waiter touches no job. -/
theorem grantSlot_still (h : w.grantSlot i = some w') : Still w w' := by
  unfold grantSlot at h
  simp only [Option.bind_eq_bind, Option.bind_eq_some_iff, Option.pure_def,
    Option.some.injEq] at h
  obtain ⟨_, -, _, -, _, -, rfl⟩ := h
  exact ⟨rfl, .same rfl rfl rfl rfl⟩

/-- Bytes for a waiter touch no job. -/
theorem grantBytes_still {n : ℕ} (h : w.grantBytes i n = some w') : Still w w' := by
  unfold grantBytes at h
  simp only [Option.bind_eq_bind, Option.bind_eq_some_iff, Option.pure_def,
    Option.some.injEq] at h
  obtain ⟨_, -, _, -, _, -, rfl⟩ := h
  exact ⟨rfl, .same rfl rfl rfl rfl⟩

/-- Giving up the wait touches no job. -/
theorem dropWaiter_still (w : Link) (i : ℕ) (x : Waiter) : Still w (w.dropWaiter i x) :=
  ⟨rfl, .same rfl rfl rfl rfl⟩

/-- The end of the wait touches no job. -/
theorem pollReserve_still (h : w.pollReserve i = some w') : Still w w' := by
  unfold pollReserve at h
  simp only [Option.bind_eq_bind, Option.bind_eq_some_iff] at h
  obtain ⟨x, -, h⟩ := h
  split at h
  · cases h; exact w.dropWaiter_still i x
  split at h
  · cases h; exact w.dropWaiter_still i x
  split at h
  · cases h; exact ⟨rfl, .same rfl rfl rfl rfl⟩
  split at h
  · cases h; exact w.dropWaiter_still i x
  · cases h; exact .refl w

/-- The end of every submission puts one job into the channel, or none. -/
theorem enqueue_submits (w : Link) (r : Reservation) (message : Message) (size : ℕ)
    (token : Option ℕ) (reply : Bool) :
    Submits w (w.enqueue r message size token reply).2 := by
  unfold enqueue
  split
  · exact (w.giveBack_still 1 r.bytes).submits
  · simp only
    split
    · rename_i queue hsend
      exact ⟨.inr ⟨_, queue, rfl, hsend, rfl⟩, .same rfl rfl rfl rfl⟩
    · exact ⟨.inl rfl, .same rfl rfl rfl rfl⟩

/-- The frame of a caller submits at most one job. -/
theorem submitData_submits (w : Link) (r : Reservation) (raw : List UInt8) (binary : Bool)
    (token : Option ℕ) (reply : Bool) :
    Submits w (w.submitData r raw binary token reply).2 := by
  unfold submitData
  split
  · exact (w.giveBack_still 1 r.bytes).submits
  · split
    · exact w.enqueue_submits r _ _ token reply
    · split
      · exact w.enqueue_submits r _ _ token reply
      · exact (w.giveBack_still 1 r.bytes).submits

/-- `send` submits at most one job. -/
theorem send_submits (w : Link) (binary : Bool) (raw : List UInt8) :
    Submits w (w.send binary raw) := by
  unfold send
  split
  · exact (Still.refl w).submits
  · rename_i r w' h
    exact (tryReserve_still h).then (w'.submitData_submits r raw binary none true)

/-- `close_with` submits at most one job. -/
theorem closeWith_submits (w : Link) (code : UInt16) (allowed : Bool) (reason : String) :
    Submits w (w.closeWith code allowed reason) := by
  unfold closeWith
  simp only
  split
  · split
    · exact w.close_still.submits
    · rename_i r w' h
      have hjob := (tryReserve_still h).then
        (w'.enqueue_submits r (.close code reason) (reason.utf8ByteSize + 2) none true)
      split
      · rename_i w'' heq
        rw [heq] at hjob
        exact hjob.then ⟨rfl, .same rfl rfl rfl rfl⟩
      · rename_i w'' heq
        rw [heq] at hjob
        exact hjob.then w''.close_still
  · exact w.close_still.submits

/-- A reservation is used up by what its owner does with it. -/
theorem withReservation_submits {f : Link → Reservation → Link}
    (hf : ∀ w r, Submits w (f w r)) (h : w.withReservation i f = some w') : Submits w w' := by
  unfold withReservation at h
  simp only [Option.bind_eq_bind, Option.bind_eq_some_iff, Option.pure_def, Option.some.injEq] at h
  obtain ⟨r, -, rfl⟩ := h
  have hout : Still w { w with reservations := w.reservations.eraseIdx i } :=
    ⟨rfl, .same rfl rfl rfl rfl⟩
  exact hout.then (hf _ r)

/-! ### The writer

The moves of the writer on the line. -/

/-- A move of the connection, on its line and on what only grows. -/
structure Moved (w w' : Link) : Prop where
  move : Move w.dropped w.Doomed w.line w'.line
  later : Later w w'
  /-- The writer ends with the connection stopped. -/
  ended : w'.writer = .ended → w.writer = .ended ∨ w'.stopped = true

/-- What submits at most one job is a move of the line. -/
theorem Submits.moved (h : Submits w w') : Moved w w' := by
  have hwriter : w'.writer = w.writer := by
    rcases h.line with hline | ⟨job, queue, -, -, hline⟩
    · exact congrArg Line.writer hline
    · exact congrArg Line.writer hline
  refine ⟨?_, h.later, fun he => .inl (hwriter.symm.trans he)⟩
  rcases h.line with hline | ⟨job, queue, hid, hsend, hline⟩
  · rw [hline]; exact .none _
  · rw [hline]; exact .accept w.line job queue hid hsend

/-- What touches no job is a move of the line. -/
theorem Still.moved (h : Still w w') : Moved w w' := h.submits.moved

/-- The writer leaves its loop without a job in its hands. -/
theorem halt_moved {reason : Halt} (h : w.halt reason = some w') : Moved w w' := by
  unfold halt at h
  split at h
  · rename_i hwaiting
    have hleave : Moved w { w with writer := .left } :=
      ⟨.leave w.line hwaiting, .same rfl rfl rfl rfl, nofun⟩
    cases reason with
    | stopped =>
      simp only at h
      split at h
      · cases h; exact hleave
      · cases h
    | heartbeat => cases h; exact hleave
    | drained =>
      simp only at h
      split at h
      · cases h; exact hleave
      · cases h
  · cases h

/-- A job is taken: it is written next, or it is over. -/
theorem take_moved (h : w.take = some w') : Moved w w' := by
  unfold take at h
  split at h
  swap
  · cases h
  rename_i hwaiting
  split at h
  · cases h
  rename_i job queue hrecv
  have hskipped : ∀ {stopped : Bool}, (if job.reply then Writer.waiting else Writer.left) = .ended →
      w.writer = .ended ∨ stopped = true := by
    intro stopped he
    split at he <;> cases he
  simp only at h
  split at h
  · rename_i hgiven
    cases h
    exact ⟨.skip w.line job queue .cancelled hwaiting hrecv (.inl hgiven), .same rfl rfl rfl rfl,
      hskipped⟩
  split at h
  · rename_i hexpired
    cases h
    exact ⟨.skip w.line job queue .queueTimeout hwaiting hrecv (.inr hexpired), .same rfl
      rfl rfl rfl, hskipped⟩
  · rename_i hgiven hexpired
    cases h
    have hdoomed : ¬w.Doomed job := by
      rintro (hd | hd)
      · exact hgiven hd
      · exact hexpired hd
    exact ⟨.begin w.line job queue hwaiting hrecv hdoomed, .same rfl rfl rfl rfl, nofun⟩

/-- The job that was written is over. -/
theorem finishWrite_moved {how : WriteEnd} (h : w.finishWrite how = some w') : Moved w w' := by
  unfold finishWrite at h
  split at h
  · rename_i job hwriting
    cases h
    cases how with
    | sent =>
      let next : Writer := if WriteEnd.sent ≠ .sent ∨ job.message.closing then .left else .waiting
      have hnext : next = .waiting ∨ next = .left := by
        unfold next
        split
        · exact .inr rfl
        · exact .inl rfl
      refine ⟨.sent w.line job next hwriting hnext, .same rfl rfl rfl rfl, ?_⟩
      intro (he : next = .ended)
      rw [he] at hnext
      rcases hnext with hnext | hnext <;> cases hnext
    | failed => exact ⟨.failed w.line job .transport hwriting, .same rfl rfl rfl rfl, nofun⟩
    | late => exact ⟨.failed w.line job .writeTimeout hwriting, .same rfl rfl rfl rfl, nofun⟩
    | stopped => exact ⟨.failed w.line job .closed hwriting, .same rfl rfl rfl rfl, nofun⟩
  · cases h

/-- So is one whose write is aborted. -/
theorem abort_moved (h : w.abort = some w') : Moved w w' := by
  unfold abort at h
  split at h
  · rename_i hwaiting
    cases h
    exact ⟨.leave w.line hwaiting, .same rfl rfl rfl rfl, nofun⟩
  · rename_i job hwriting
    cases h
    exact ⟨.failed w.line job .closed hwriting, .same rfl rfl rfl rfl, nofun⟩
  · cases h

/-- The jobs that are left in the channel are over. -/
theorem dropQueue_moved (h : w.dropQueue = some w') : Moved w w' := by
  unfold dropQueue at h
  split at h
  · rename_i hleft
    cases h
    rw [foldl_finish]
    exact ⟨.dropAll w.line hleft, .same rfl rfl rfl rfl, nofun⟩
  · cases h

/-- The end of the writer changes nothing more. -/
theorem exit_moved (h : w.exit = some w') : Moved w w' := by
  unfold exit at h
  split at h
  · rename_i hdropped
    cases h
    have hlater : Later w { w with writer := .ended, stopped := true } :=
      ⟨List.Subset.refl _, List.Subset.refl _, Nat.le_refl _, fun _ => rfl⟩
    exact ⟨.end w.line hdropped, hlater, fun _ => .inr rfl⟩
  · cases h

end Link

/-- **What a move does.**  On the line it is one of the moves of the line, and tokens, dropped
    receipts, the clock and the end of the connection never go back. -/
theorem step_moved {w w' : Link} {op : Op} (h : step w op = some w') : w.Moved w' := by
  -- one case for each operation, from what its own lemma says it moves
  cases op with
  | tryReserve n =>
    simp only [step] at h
    split at h
    · rename_i r w₁ hreserve
      cases h
      have hstill := Link.tryReserve_still hreserve
      have hkeep : Link.Still w₁ { w₁ with reservations := w₁.reservations ++ [r] } :=
        ⟨rfl, .same rfl rfl rfl rfl⟩
      exact (hstill.trans hkeep).moved
    · cases h; exact (Link.Still.refl w).moved
  | reserve n token => cases h; exact (w.reserve_still n token).moved
  | grantSlot i => exact (Link.grantSlot_still h).moved
  | grantBytes i n => exact (Link.grantBytes_still h).moved
  | pollReserve i => exact (Link.pollReserve_still h).moved
  | dropReserve i =>
    obtain ⟨x, -, rfl⟩ := Option.map_eq_some_iff.mp h
    exact (w.dropWaiter_still i x).moved
  | dropReservation i =>
    exact (Link.withReservation_submits (fun w r => (w.giveBack_still 1 r.bytes).submits) h).moved
  | submit i raw token =>
    exact (Link.withReservation_submits (fun w r => w.submitData_submits r raw _ _ _) h).moved
  | submitDetached i raw token =>
    exact (Link.withReservation_submits (fun w r => w.submitData_submits r raw _ _ _) h).moved
  | send binary raw => cases h; exact (w.send_submits binary raw).moved
  | closeWith code allowed reason =>
    cases h; exact (w.closeWith_submits code allowed reason).moved
  | closeEnds i =>
    simp only [step, Link.closeEnds, Option.bind_eq_bind, Option.bind_eq_some_iff, Option.pure_def,
      Option.some.injEq] at h
    obtain ⟨id, -, rfl⟩ := h
    exact ⟨.none _, ⟨List.subset_cons_self _ _, List.Subset.refl _, Nat.le_refl _, fun _ => rfl⟩,
      .inl⟩
  | close => cases h; exact w.close_still.moved
  | cancel token =>
    cases h
    exact ⟨.none _, ⟨List.Subset.refl _, List.subset_cons_self _ _, Nat.le_refl _, id⟩, .inl⟩
  | dropReceipt receipt =>
    simp only [step] at h
    split at h
    · cases h
      exact ⟨.none _, ⟨List.subset_cons_self _ _, List.Subset.refl _, Nat.le_refl _, id⟩, .inl⟩
    · cases h
  | tick elapsed =>
    cases h
    exact ⟨.none _, ⟨List.Subset.refl _, List.Subset.refl _, Nat.le_add_right _ _, id⟩, .inl⟩
  | halt reason => exact Link.halt_moved h
  | take => exact Link.take_moved h
  | finishWrite how => exact Link.finishWrite_moved h
  | abort => exact Link.abort_moved h
  | dropQueue => exact Link.dropQueue_moved h
  | exit => exact Link.exit_moved h

/-! ### Every state of a run

By induction on the moves, from the balance of permits and the invariant of the line. -/

/-- One state leads to another by some moves. -/
abbrev Runs : Link → Link → Prop :=
  Relation.ReflTransGen fun w w' => ∃ op, step w op = some w'

/-- Moves that happen one after the other are a run. -/
theorem Runs.of_foldlM {ops : List Op} {w w' : Link} (h : ops.foldlM step w = some w') :
    Runs w w' := by
  induction ops generalizing w with
  | nil =>
    cases h
    exact .refl
  | cons op ops ih =>
    rw [List.foldlM_cons] at h
    obtain ⟨v, hv, hrest⟩ := Option.bind_eq_some_iff.mp h
    exact .head ⟨op, hv⟩ (ih hrest)

/-- A state of a run of a connection with a budget of `limit` bytes. -/
def Reachable (protocol : Protocol.Negotiated) (limit : ℕ) (w : Link) : Prop :=
  ∃ w₀, start protocol limit = .ok w₀ ∧ Runs w₀ w

/-- What is true in every state. -/
structure Link.Inv (limit : ℕ) (w : Link) : Prop where
  slots : w.slotTotal = queuedFrames
  bytes : w.byteTotal = limit
  line : w.line.Inv w.dropped
  ended : w.writer = .ended → w.stopped = true

section
variable {protocol : Protocol.Negotiated} {limit : ℕ} {w w' : Link} {op : Op}

/-- A link starts with all its permits and no jobs. -/
theorem start_inv {w₀ : Link} (h : start protocol limit = .ok w₀) : w₀.Inv limit := by
  unfold start at h
  split at h
  · cases h
  · cases h
    have hanswers : Answered [] [] [] [] [] := ⟨nofun, List.nodup_nil, nofun⟩
    have hslots : 0 + queuedFrames = queuedFrames := Nat.zero_add _
    exact ⟨hslots, Nat.zero_add _,
      ⟨rfl, rfl, List.Sublist.refl _, List.Sublist.refl _, nofun, nofun, hanswers⟩, nofun⟩

/-- **Step lemma.** Every move keeps the accounts. -/
theorem step_inv (h : step w op = some w') (hinv : w.Inv limit) : w'.Inv limit := by
  have hbalance := step_balanced h
  have hmoved := step_moved h
  refine ⟨hbalance.slots.trans hinv.slots, hbalance.bytes.trans hinv.bytes,
    (hmoved.move.inv hinv.line).mono hmoved.later.dropped, ?_⟩
  intro he
  rcases hmoved.ended he with he | hs
  · exact hmoved.later.stopped (hinv.ended he)
  · exact hs

/-- **Run lemma.** So does every run. -/
theorem Runs.inv (h : Runs w w') (hinv : w.Inv limit) : w'.Inv limit := by
  induction h with
  | refl => exact hinv
  | tail _ hstep ih =>
    obtain ⟨op, hop⟩ := hstep
    exact step_inv hop ih

/-- The accounts are right in every state that is reached. -/
theorem Reachable.inv (h : Reachable protocol limit w) : w.Inv limit := by
  obtain ⟨w₀, hstart, hruns⟩ := h
  exact Runs.inv hruns (start_inv hstart)

/-- A job that is to be passed over never reaches the socket. -/
theorem Runs.passed {job : Job} (h : Runs w w') (hinv : w.Inv limit)
    (hjob : Passed w.Doomed w.line job) : Passed w'.Doomed w'.line job := by
  induction h with
  | refl => exact hjob
  | tail hruns hstep ih =>
    obtain ⟨op, hop⟩ := hstep
    have hmoved := step_moved hop
    exact (hmoved.move.passed (Runs.inv hruns hinv).line ih).mono hmoved.later.doomed

/-- After the writer left its loop the socket gets nothing more. -/
theorem Runs.gone (h : Runs w w') (hgone : w.writer.gone = true) :
    w'.writer.gone = true ∧ w'.started = w.started ∧ w'.written = w.written := by
  induction h with
  | refl => exact ⟨hgone, rfl, rfl⟩
  | tail _ hstep ih =>
    obtain ⟨op, hop⟩ := hstep
    obtain ⟨hgone', hstarted, hwritten⟩ := (step_moved hop).move.gone ih.1
    exact ⟨hgone', hstarted.trans ih.2.1, hwritten.trans ih.2.2⟩

/-! ### The channel is never full

A queued job holds a slot, and there are as many slots as places in the channel. -/

/-- A channel with room is not busy. -/
theorem enqueue_not_busy {r : Reservation} (hroom : w.queue.queue.length < w.queue.capacity)
    (message : Message) (size : ℕ) (token : Option ℕ) (reply : Bool) :
    (w.enqueue r message size token reply).1 ≠ .error .busy := by
  unfold Link.enqueue
  split
  · rename_i e hcheck
    rintro he
    cases he
    unfold Link.check at hcheck
    split at hcheck
    · cases hcheck
    split at hcheck
    · cases hcheck
    split at hcheck
    · cases hcheck
    split at hcheck <;> cases hcheck
  · simp only
    split
    · exact nofun
    · rename_i hsend
      have hclosed := (Channel.trySend_eq_none.mp hsend).resolve_right (Nat.not_le.mpr hroom)
      rw [if_pos hclosed]
      exact nofun

/-- Whoever has a slot in hands finds room in the channel. -/
theorem Link.Inv.room (hinv : w.Inv limit) (hslot : w.unfinished.length < queuedFrames) :
    w.queue.queue.length < w.queue.capacity := by
  have hcap : w.queue.capacity = queuedFrames := hinv.line.capacity
  rw [Link.unfinished, List.length_append] at hslot
  omega

/-! ### The queue's contract

Everything that is promised about frames, in one state of one run. -/

/-- The outbound queue's contract in one state. -/
structure Accounted (limit : ℕ) (w : Link) : Prop where
  /-- Every byte permit is free, or held by a suspended `reserve`, a reservation or an unfinished
      job. -/
  bytes : held Waiter.got w.waiting + held Reservation.bytes w.reservations +
    held Job.bytes w.unfinished + w.bytes.available = limit
  /-- So is every slot; each reservation and each unfinished job holds one. -/
  slots : held (fun x => x.slot.toNat) w.waiting + w.reservations.length + w.unfinished.length +
    w.slots.available = 16
  /-- A reservation is never answered with `Busy`, whether its owner kept it or got it just now. -/
  neverFull : ∀ i r message size token reply, w.reservations[i]? = some r →
    (({ w with reservations := w.reservations.eraseIdx i } : Link).enqueue r message size token
      reply).1 ≠ .error .busy
  neverFullNow : ∀ n r w' message size token reply, w.tryReserve n = .ok (r, w') →
    (w'.enqueue r message size token reply).1 ≠ .error .busy
  /-- With everything dropped, every permit is back. -/
  allBack : w.waiting = [] → w.reservations = [] → w.unfinished = [] →
    w.bytes.available = limit ∧ w.slots.available = 16
  /-- Submissions are numbered, and the frames on the socket are some of them, in their order;
      those written as a whole are some of these. -/
  order : w.accepted.map Job.id = List.range w.accepted.length ∧
    w.started.Sublist w.accepted ∧ w.written.Sublist w.started
  /-- No receipt resolves twice. -/
  atMostOnce : (w.replies.map Prod.fst).Nodup
  /-- A receipt that is not dropped resolves as soon as its job is over, and not earlier. -/
  resolves : ∀ job ∈ w.accepted, job.reply = true → job.id ∉ w.dropped →
    (job.id ∈ w.replies.map Prod.fst ↔ job ∉ w.unfinished)
  /-- When the channel is gone every job is over. -/
  ended : w.writer = .dropped ∨ w.writer = .ended → w.unfinished = []
  /-- A receipt resolves to `Ok` only when its whole frame was written. -/
  truth : ∀ job ∈ w.accepted, (job.id, .ok ()) ∈ w.replies → job ∈ w.written
  /-- A job that is cancelled or expired before its write starts is never written.  If it is
      detached, the writer leaves its loop instead of passing over it. -/
  passed : ∀ job ∈ w.accepted, job ∉ w.started → w.Doomed job → ∀ w', Runs w w' →
    job ∉ w'.started ∧ (job.reply = false → job ∈ w'.queue.queue ∨ w'.writer.gone = true)
  /-- A writer that left its loop sends nothing any more, and ends with the connection stopped. -/
  gone : w.writer.gone = true →
    (∀ w', Runs w w' → w'.writer.gone = true ∧ w'.started = w.started) ∧
    (w.writer = .ended → w.stopped = true)

/-- **The outbound queue keeps its contract in every state of every run.** -/
theorem frames_accounted (h : Reachable protocol limit w) : Accounted limit w := by
  have hinv := h.inv
  have hslots : w.heldSlots + w.slots.available = 16 := hinv.slots
  have hbytes : w.heldBytes + w.bytes.available = limit := hinv.bytes
  rw [Link.heldSlots] at hslots
  rw [Link.heldBytes] at hbytes
  refine
    { bytes := hbytes
      slots := hslots
      neverFull := ?_
      neverFullNow := ?_
      allBack := ?_
      order := ⟨hinv.line.ids, (List.sublist_append_left _ _).trans hinv.line.order,
        (List.sublist_append_left _ _).trans hinv.line.whole⟩
      atMostOnce := hinv.line.answers.once
      resolves := ?_
      ended := ?_
      truth := ?_
      passed := ?_
      gone := fun hgone =>
        ⟨fun w' hruns => ⟨(Runs.gone hruns hgone).1, (Runs.gone hruns hgone).2.1⟩, hinv.ended⟩ }
  · intro i r message size token reply hr
    have hlt : i < w.reservations.length := (List.getElem?_eq_some_iff.mp hr).1
    refine enqueue_not_busy (w := { w with reservations := w.reservations.eraseIdx i }) ?_ _ _ _ _
    exact hinv.room (by rw [queuedFrames]; omega)
  · intro n r w' message size token reply hreserve
    -- The slot that was just taken is one that no unfinished job had.
    obtain ⟨slots', bytes', hfree, -, -, rfl⟩ := Link.tryReserve_ok hreserve
    refine enqueue_not_busy (w := { w with slots := slots', bytes := bytes' }) ?_ _ _ _ _
    exact hinv.room (by rw [queuedFrames]; omega)
  · intro hwaiting hreservations hunfinished
    rw [hwaiting, hreservations, hunfinished] at hslots hbytes
    simp only [held_nil, List.length_nil] at hslots hbytes
    exact ⟨by omega, by omega⟩
  · intro job hjob hreply hdropped
    constructor
    · intro hmem
      obtain ⟨p, hp, hid⟩ := List.mem_map.mp hmem
      obtain ⟨j, hj, hjid, -, hout, -⟩ := hinv.line.answers.sound p hp
      obtain rfl := List.inj_on_of_nodup_map hinv.line.nodup hj hjob (hjid.trans hid)
      exact hout
    · intro hout
      rcases hinv.line.answers.answered job hjob hreply with hmem | hmem | hmem
      · exact absurd hmem hout
      · exact hmem
      · exact absurd hmem hdropped
  · intro hgone
    have hqueue : w.queue.queue = [] := (hinv.line.shut hgone).2
    rw [Link.unfinished, hqueue]
    rcases hgone with hgone | hgone <;> rw [hgone] <;> rfl
  · intro job hjob hmem
    obtain ⟨j, hj, hjid, -, -, hwhole⟩ := hinv.line.answers.sound _ hmem
    obtain rfl := List.inj_on_of_nodup_map hinv.line.nodup hj hjob hjid
    exact hwhole rfl
  · intro job hjob hunstarted hdoomed w' hruns
    have hfate : Passed w.Doomed w.line job := by
      refine ⟨hjob, hunstarted, ?_⟩
      by_cases hqueued : job ∈ w.queue.queue
      · exact .inl ⟨hqueued, hdoomed⟩
      · rcases hinv.line.kept job hjob with hmem | hmem | hgone
        · exact absurd hmem hunstarted
        · exact absurd hmem hqueued
        · exact .inr ⟨hqueued, hgone⟩
    have hpassed := Runs.passed hruns hinv hfate
    refine ⟨hpassed.unstarted, fun hreply => ?_⟩
    exact hpassed.fate.imp (fun hq => hq.1) (fun hq => hq.2 hreply)

end

namespace WaitingExample

/-! One producer reserves the whole budget, and a second one waits for bytes with its slot
already taken. -/

/-- A connection with a budget of four bytes. -/
def opened : Link :=
  { byteLimit := 4, protocol := .jsonV1
    slots := ⟨16⟩, bytes := ⟨4⟩
    waiting := [], reservations := [], queue := .new 16
    writer := .waiting, stopped := false, clock := 0, cancelled := [], closing := []
    accepted := [], dropped := [], replies := [], started := [], written := [] }

/-- The first producer has all the bytes. -/
def reserved : Link :=
  { opened with slots := ⟨15⟩, bytes := ⟨0⟩, reservations := [{ bytes := 4, admitted := 0 }] }

/-- The second one waits. -/
def suspended (slot : Bool) : Link :=
  { reserved with
    slots := ⟨15 - slot.toNat⟩
    waiting := [{ want := 1, slot, got := 0, token := 0, deadline := queueDeadline }] }

theorem suspended_reachable : Reachable .jsonV1 4 (suspended true) := by
  have hfirst : step opened (.tryReserve 4) = some reserved := rfl
  have hsecond : step reserved (.reserve 1 0) = some (suspended false) := rfl
  have hslot : step (suspended false) (.grantSlot 0) = some (suspended true) := rfl
  exact ⟨opened, rfl, ((Relation.ReflTransGen.single ⟨_, hfirst⟩).tail ⟨_, hsecond⟩).tail
    ⟨_, hslot⟩⟩

/-- One frame is written and answered, one is in the writer's hands, a third one is detached and
    its token is cancelled, and a producer waits for one more byte. -/
def served : List Op :=
  [.tryReserve 2, .submit 0 [104, 105] 7, .take, .finishWrite .sent,
   .tryReserve 2, .submit 0 [104] 8, .take,
   .tryReserve 1, .submitDetached 0 [105] 9, .cancel 9,
   .tryReserve 1, .reserve 2 10, .grantSlot 0, .grantBytes 0 1]

theorem suspended_accounted : ∃ w, served.foldlM step opened = some w ∧
    w.replies = [(0, .ok ())] ∧ w.started.map Job.id = [0, 1] ∧ w.unfinished.map Job.id = [1, 2] ∧
    w.waiting.length = 1 ∧ w.reservations.length = 1 ∧ Accounted 4 w := by
  have hrun : served.foldlM step opened = some _ := rfl
  exact ⟨_, hrun, rfl, rfl, rfl, rfl, rfl, frames_accounted ⟨opened, rfl, .of_foldlM hrun⟩⟩

/-- The reservations and the unfinished jobs alone do not account for every slot. -/
theorem suspended_holds_slot : Reachable .jsonV1 4 (suspended true) ∧
    (suspended true).reservations.length + (suspended true).unfinished.length +
      (suspended true).slots.available = 15 :=
  ⟨suspended_reachable, rfl⟩

end WaitingExample

end Hmux.Transport
