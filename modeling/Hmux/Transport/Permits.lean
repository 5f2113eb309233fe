import Hmux.Transport.Queue

namespace Hmux.Transport

open Hmux.Lib

/-!
# No permit is lost

Every permit of the two semaphores is free, or held by a suspended `reserve`, by a reservation
or by an unfinished job.  A call moves permits between these places; while it has a reservation
in its hands the reservation's share is missing from the sum, which is what `Balanced` says.

* `slotTotal`, `byteTotal` — the two sums;
* `tryReserve_balanced`, `enqueue_balanced`, … — one lemma for each call;
* `step_balanced` — no move changes the sums.
-/

namespace Link

variable {w w' w'' : Link} {i : ℕ} {r : Reservation} {job : Job}

/-- The jobs that are not over: the one being written and the queued ones. -/
def unfinished (w : Link) : List Job := w.writer.jobs ++ w.queue.queue

/-- The slots that are held by somebody. -/
def heldSlots (w : Link) : ℕ :=
  held (fun x => x.slot.toNat) w.waiting + w.reservations.length + w.unfinished.length

/-- The bytes that are held by somebody. -/
def heldBytes (w : Link) : ℕ :=
  held Waiter.got w.waiting + held Reservation.bytes w.reservations + held Job.bytes w.unfinished

def slotTotal (w : Link) : ℕ := w.heldSlots + w.slots.available
def byteTotal (w : Link) : ℕ := w.heldBytes + w.bytes.available

/-- From `w` to `w'` the sums grow by `s` slots and `b` bytes. -/
structure Balanced (w w' : Link) (s b : ℕ) : Prop where
  slots : w'.slotTotal = w.slotTotal + s
  bytes : w'.byteTotal = w.byteTotal + b

/-- Nothing is taken or given back. -/
theorem Balanced.refl (w : Link) : Balanced w w 0 0 := ⟨rfl, rfl⟩

/-- What two moves give back adds up. -/
theorem Balanced.trans {s b s' b' : ℕ} (h : Balanced w w' s b) (h' : Balanced w' w'' s' b') :
    Balanced w w'' (s + s') (b + b') :=
  ⟨by rw [h'.slots, h.slots]; omega, by rw [h'.bytes, h.bytes]; omega⟩

/-- What a reservation took out is put back by whatever consumes it. -/
theorem Balanced.cancel {s b : ℕ} (h : Balanced w' w s b) (h' : Balanced w' w'' s b) :
    Balanced w w'' 0 0 :=
  ⟨by have := h.slots; have := h'.slots; omega, by have := h.bytes; have := h'.bytes; omega⟩

/-- Permits are given back. -/
theorem giveBack_balanced (w : Link) (s b : ℕ) : Balanced w (w.giveBack s b) s b where
  slots := by
    show w.heldSlots + (w.slots.available + s) = w.heldSlots + w.slots.available + s
    omega
  bytes := by
    show w.heldBytes + (w.bytes.available + b) = w.heldBytes + w.bytes.available + b
    omega

/-- An answer costs nothing. -/
theorem resolve_balanced (w : Link) (job : Job) (result : Except Error Unit) :
    Balanced w (w.resolve job result) 0 0 :=
  ⟨rfl, rfl⟩

/-- A job that is over gives back its slot and its bytes. -/
theorem finish_balanced (w : Link) (job : Job) (result : Except Error Unit) :
    Balanced w (w.finish job result) 1 job.bytes :=
  (w.giveBack_balanced 1 job.bytes).trans (resolve_balanced _ job result)

/-! ### Admission

Permits go from the semaphore to a waiter or a reservation, one at a time or all at once. -/

/-- What a granted reservation took. -/
theorem tryReserve_ok {n : ℕ} (h : w.tryReserve n = .ok (r, w')) :
    ∃ slots bytes, w.slots.available = slots.available + 1 ∧
      w.bytes.available = bytes.available + n ∧ r = { bytes := n, admitted := w.clock } ∧
      w' = { w with slots, bytes } := by
  unfold tryReserve at h
  split at h
  · cases h
  split at h
  · cases h
  split at h
  · cases h
  rename_i slots hslots
  split at h
  · cases h
  rename_i bytes hbytes
  cases h
  exact ⟨slots, bytes, Semaphore.tryAcquire_eq_some hslots, Semaphore.tryAcquire_eq_some hbytes,
    rfl, rfl⟩

/-- A reservation takes them. -/
theorem tryReserve_balanced {n : ℕ} (h : w.tryReserve n = .ok (r, w')) :
    Balanced w' w 1 r.bytes := by
  obtain ⟨slots, bytes, hslots, hbytes, rfl, rfl⟩ := tryReserve_ok h
  constructor
  · show w.heldSlots + w.slots.available = w.heldSlots + slots.available + 1
    omega
  · show w.heldBytes + w.bytes.available = w.heldBytes + bytes.available + n
    omega

/-- A reservation is put into its owner's hands. -/
theorem keep_balanced (w : Link) (r : Reservation) :
    Balanced w { w with reservations := w.reservations ++ [r] } 1 r.bytes := by
  constructor
  · simp only [slotTotal, heldSlots, unfinished, List.length_append, List.length_singleton]
    omega
  · simp only [byteTotal, heldBytes, unfinished, held_append, held_cons, held_nil]
    omega

/-- A reservation leaves its owner's hands. -/
theorem takeOut_balanced (h : w.reservations[i]? = some r) :
    Balanced { w with reservations := w.reservations.eraseIdx i } w 1 r.bytes := by
  have hlt : i < w.reservations.length := (List.getElem?_eq_some_iff.mp h).1
  have hbytes : held Reservation.bytes w.reservations =
      r.bytes + held Reservation.bytes (w.reservations.eraseIdx i) := held_eraseIdx h
  constructor
  · simp only [slotTotal, heldSlots, unfinished, List.length_eraseIdx_of_lt hlt]
    omega
  · simp only [byteTotal, heldBytes, unfinished]
    omega

/-- A suspended `reserve` leaves. -/
theorem unwait_balanced {x : Waiter} (h : w.waiting[i]? = some x) :
    Balanced { w with waiting := w.waiting.eraseIdx i } w x.slot.toNat x.got := by
  have hslots : held (fun x : Waiter => x.slot.toNat) w.waiting =
      x.slot.toNat + held (fun x : Waiter => x.slot.toNat) (w.waiting.eraseIdx i) :=
    held_eraseIdx h
  have hbytes : held Waiter.got w.waiting =
      x.got + held Waiter.got (w.waiting.eraseIdx i) := held_eraseIdx h
  constructor
  · simp only [slotTotal, heldSlots, unfinished]
    omega
  · simp only [byteTotal, heldBytes, unfinished]
    omega

/-- A call that has to wait has taken nothing yet. -/
theorem reserve_balanced (w : Link) (n token : ℕ) : Balanced w (w.reserve n token) 0 0 := by
  unfold reserve
  split
  · rename_i r w' h
    exact (tryReserve_balanced h).cancel (keep_balanced w' r)
  · constructor
    · simp only [slotTotal, heldSlots, unfinished, held_append, held_cons, held_nil,
        Bool.toNat_false]
      omega
    · simp only [byteTotal, heldBytes, unfinished, held_append, held_cons, held_nil]
      omega
  · exact .refl w

/-- A slot goes from the semaphore to the waiter. -/
theorem grantSlot_balanced (h : w.grantSlot i = some w') : Balanced w w' 0 0 := by
  unfold grantSlot at h
  simp only [Option.bind_eq_bind, Option.bind_eq_some_iff, Option.guard_eq_some', Option.pure_def,
    Option.some.injEq] at h
  obtain ⟨x, hx, -, hfree, slots, hslots, rfl⟩ := h
  have hs := Semaphore.tryAcquire_eq_some hslots
  have hheld := held_set (f := fun x : Waiter => x.slot.toNat) (y := { x with slot := true }) hx
  have hgot := held_set (f := Waiter.got) (y := { x with slot := true }) hx
  simp only [hfree, Bool.toNat_true, Bool.toNat_false] at hheld hgot
  constructor
  · simp only [slotTotal, heldSlots, unfinished]
    omega
  · simp only [byteTotal, heldBytes, unfinished]
    omega

/-- Bytes go from the semaphore to the waiter. -/
theorem grantBytes_balanced {n : ℕ} (h : w.grantBytes i n = some w') : Balanced w w' 0 0 := by
  unfold grantBytes at h
  simp only [Option.bind_eq_bind, Option.bind_eq_some_iff, Option.guard_eq_some', Option.pure_def,
    Option.some.injEq] at h
  obtain ⟨x, hx, -, -, bytes, hbytes, rfl⟩ := h
  have hb := Semaphore.tryAcquire_eq_some hbytes
  have hheld := held_set (f := fun x : Waiter => x.slot.toNat) (y := { x with got := x.got + n }) hx
  have hgot := held_set (f := Waiter.got) (y := { x with got := x.got + n }) hx
  simp only at hheld hgot
  constructor
  · simp only [slotTotal, heldSlots, unfinished]
    omega
  · simp only [byteTotal, heldBytes, unfinished]
    omega

/-- A waiter that gives up gives back what it has. -/
theorem dropWaiter_balanced {x : Waiter} (h : w.waiting[i]? = some x) :
    Balanced w (w.dropWaiter i x) 0 0 :=
  (unwait_balanced h).cancel (giveBack_balanced _ _ _)

/-- At the end of the wait the permits are the reservation's. -/
theorem pollReserve_balanced (h : w.pollReserve i = some w') : Balanced w w' 0 0 := by
  unfold pollReserve at h
  simp only [Option.bind_eq_bind, Option.bind_eq_some_iff] at h
  obtain ⟨x, hx, h⟩ := h
  have hdrop := dropWaiter_balanced hx
  split at h
  · cases h; exact hdrop
  split at h
  · cases h; exact hdrop
  split at h
  · rename_i hfull
    cases h
    have hkeep := keep_balanced { w with waiting := w.waiting.eraseIdx i }
      { bytes := x.got, admitted := w.clock }
    have hout := unwait_balanced hx
    rw [hfull.1] at hout
    exact hout.cancel hkeep
  split at h
  · cases h; exact hdrop
  · cases h; exact .refl w

/-! ### From a reservation to a job

A job takes over the slot and the bytes it uses, and the rest goes back. -/

/-- A frame that passes the check fits its reservation. -/
theorem check_size {size : ℕ} {token : Option ℕ} (h : w.check r size token = .ok ()) :
    size ≤ r.bytes := by
  unfold check at h
  split at h
  · cases h
  split at h
  · cases h
  split at h
  · cases h
  split at h
  · cases h
  · rename_i hsize
    omega

/-- A job enters the channel. -/
theorem sent_balanced {queue : Channel Job} (h : w.queue.trySend job = some queue)
    (accepted : List Job) : Balanced w { w with queue, accepted } 1 job.bytes := by
  obtain ⟨-, -, rfl⟩ := Channel.trySend_eq_some.mp h
  constructor
  · simp only [slotTotal, heldSlots, unfinished, List.length_append, List.length_singleton]
    omega
  · simp only [byteTotal, heldBytes, unfinished, held_append, held_cons, held_nil]
    omega

/-- Whatever becomes of it, a consumed reservation puts back all it took. -/
theorem enqueue_balanced (w : Link) (r : Reservation) (message : Message) (size : ℕ)
    (token : Option ℕ) (reply : Bool) :
    Balanced w (w.enqueue r message size token reply).2 1 r.bytes := by
  unfold enqueue
  split
  · exact giveBack_balanced w 1 r.bytes
  · rename_i hcheck
    have hsize := check_size hcheck
    have hsplit := giveBack_balanced w 0 (r.bytes - size)
    have hsum : r.bytes - size + (r.bytes - (r.bytes - size)) = r.bytes := by omega
    simp only
    split
    · rename_i queue hsend
      have h := fun accepted => hsplit.trans (sent_balanced hsend accepted)
      simp only [hsum] at h
      exact h _
    · have h := hsplit.trans (giveBack_balanced _ 1 (r.bytes - (r.bytes - size)))
      rw [hsum] at h
      exact h

/-- A submission hands its reservation to the job, or gives it back. -/
theorem submitData_balanced (w : Link) (r : Reservation) (raw : List UInt8) (binary : Bool)
    (token : Option ℕ) (reply : Bool) :
    Balanced w (w.submitData r raw binary token reply).2 1 r.bytes := by
  unfold submitData
  split
  · exact giveBack_balanced w 1 r.bytes
  · split
    · exact enqueue_balanced w r _ _ token reply
    · split
      · exact enqueue_balanced w r _ _ token reply
      · exact giveBack_balanced w 1 r.bytes

/-- `send` takes what its job holds. -/
theorem send_balanced (w : Link) (binary : Bool) (raw : List UInt8) :
    Balanced w (w.send binary raw) 0 0 := by
  unfold send
  split
  · exact .refl w
  · rename_i r w' h
    exact (tryReserve_balanced h).cancel (submitData_balanced w' r raw binary none true)

/-- `close_with` takes what its job holds. -/
theorem closeWith_balanced (w : Link) (code : UInt16) (allowed : Bool) (reason : String) :
    Balanced w (w.closeWith code allowed reason) 0 0 := by
  unfold closeWith
  simp only
  split
  · split
    · exact ⟨rfl, rfl⟩
    · rename_i r w' h
      have hjob := enqueue_balanced w' r (.close code reason) (reason.utf8ByteSize + 2) none true
      have hall := (tryReserve_balanced h).cancel hjob
      split
      · rename_i w'' heq
        rw [heq] at hall
        exact ⟨hall.slots, hall.bytes⟩
      · rename_i w'' heq
        rw [heq] at hall
        exact ⟨hall.slots, hall.bytes⟩
  · exact ⟨rfl, rfl⟩

/-- A reservation is one of those that are held until it is used up. -/
theorem withReservation_balanced {f : Link → Reservation → Link}
    (hf : ∀ w r, Balanced w (f w r) 1 r.bytes) (h : w.withReservation i f = some w') :
    Balanced w w' 0 0 := by
  unfold withReservation at h
  simp only [Option.bind_eq_bind, Option.bind_eq_some_iff, Option.pure_def, Option.some.injEq] at h
  obtain ⟨r, hr, rfl⟩ := h
  exact (takeOut_balanced hr).cancel (hf _ r)

/-! ### The writer

A job that is over gives back what it holds, whether it was written, passed over or dropped. -/

/-- The writer goes on without the job it had. -/
theorem letGo_balanced (writer : Writer) (hjobs : w.writer.jobs = [job])
    (hnone : writer.jobs = []) :
    Balanced { w with writer } w 1 job.bytes := by
  constructor
  · simp only [slotTotal, heldSlots, unfinished, hjobs, hnone, List.length_append,
      List.length_singleton, List.length_nil]
    omega
  · simp only [byteTotal, heldBytes, unfinished, hjobs, hnone, held_append, held_cons, held_nil]
    omega

/-- The writer moves on while it has no job. -/
theorem idle_balanced (writer : Writer) (hjobs : w.writer.jobs = []) (hnone : writer.jobs = []) :
    Balanced w { w with writer } 0 0 := by
  constructor
  · simp only [slotTotal, heldSlots, unfinished, hjobs, hnone]
    omega
  · simp only [byteTotal, heldBytes, unfinished, hjobs, hnone]
    omega

/-- The writer leaves its loop with empty hands. -/
theorem halt_balanced {reason : Halt} (h : w.halt reason = some w') : Balanced w w' 0 0 := by
  unfold halt at h
  split at h
  · rename_i hwaiting
    have hjobs : w.writer.jobs = [] := by rw [hwaiting]; rfl
    have hleft := idle_balanced .left hjobs rfl
    cases reason with
    | stopped =>
      simp only at h
      split at h
      · cases h; exact hleft
      · cases h
    | heartbeat => cases h; exact hleft
    | drained =>
      simp only at h
      split at h
      · cases h; exact hleft
      · cases h
  · cases h

/-- A job that is aborted gives back what it holds. -/
theorem abort_balanced (h : w.abort = some w') : Balanced w w' 0 0 := by
  unfold abort at h
  split at h
  · rename_i hwaiting
    cases h
    exact idle_balanced .left (by rw [hwaiting]; rfl) rfl
  · rename_i job hwriting
    cases h
    have hjobs : w.writer.jobs = [job] := by rw [hwriting]; rfl
    exact (letGo_balanced .left hjobs rfl).cancel (finish_balanced _ job (.error .closed))
  · cases h

/-- A job that was written gives back what it holds. -/
theorem finishWrite_balanced {how : WriteEnd} (h : w.finishWrite how = some w') :
    Balanced w w' 0 0 := by
  unfold finishWrite at h
  split at h
  · rename_i job hwriting
    have hjobs : w.writer.jobs = [job] := by rw [hwriting]; rfl
    have hnext : ∀ p : Prop, ∀ [Decidable p],
        (if p then Writer.left else Writer.waiting).jobs = [] := by
      intro p _
      split <;> rfl
    cases h
    have hout := letGo_balanced _ hjobs (hnext (how ≠ .sent ∨ job.message.closing))
    have hall := hout.cancel (finish_balanced _ job how.result)
    -- The list of written frames holds no permits.
    split
    · exact ⟨hall.slots, hall.bytes⟩
    · exact ⟨hall.slots, hall.bytes⟩
  · cases h

/-- The writer receives a job. -/
theorem recv_balanced {queue : Channel Job} (h : w.queue.recv = some (job, queue)) :
    Balanced { w with queue } w 1 job.bytes := by
  obtain ⟨rest, hqueue, rfl⟩ := Channel.recv_eq_some.mp h
  constructor
  · simp only [slotTotal, heldSlots, unfinished, hqueue, List.length_append, List.length_cons]
    omega
  · simp only [byteTotal, heldBytes, unfinished, hqueue, held_append, held_cons]
    omega

/-- A job that is passed over gives back what it holds. -/
theorem take_balanced (h : w.take = some w') : Balanced w w' 0 0 := by
  unfold take at h
  split at h
  swap
  · cases h
  rename_i hwaiting
  have hnone : w.writer.jobs = [] := by rw [hwaiting]; rfl
  split at h
  · cases h
  rename_i job queue hrecv
  have hout := recv_balanced hrecv
  have hskip : ∀ result : Except Error Unit, Balanced w
      { ({ w with queue } : Link).finish job result with
        writer := if job.reply then .waiting else .left } 0 0 := by
    intro result
    have hdone := hout.cancel (finish_balanced { w with queue } job result)
    refine hdone.trans (idle_balanced _ hnone ?_)
    split <;> rfl
  simp only at h
  split at h
  · cases h; exact hskip _
  split at h
  · cases h; exact hskip _
  · cases h
    have hhold := letGo_balanced (w := { w with queue, writer := .writing job }) .waiting rfl rfl
    have hsame : Balanced { w with queue } { w with queue, writer := .waiting } 0 0 :=
      idle_balanced .waiting hnone rfl
    have hadd := hsame.trans hhold
    rw [Nat.zero_add, Nat.zero_add] at hadd
    have hall := hout.cancel hadd
    exact ⟨hall.slots, hall.bytes⟩

/-- Jobs that are dropped together give back what they hold together. -/
theorem foldl_finish (jobs : List Job) (result : Except Error Unit) (w : Link) :
    jobs.foldl (fun w job => w.finish job result) w =
      { w.giveBack jobs.length (held Job.bytes jobs) with
        replies := jobs.foldl (fun rs job => answer w.dropped rs job result) w.replies } := by
  induction jobs generalizing w with
  | nil => rfl
  | cons job jobs ih =>
    rw [List.foldl_cons, ih]
    simp only [finish, resolve, giveBack, Semaphore.release, List.length_cons, held_cons,
      List.foldl_cons, Link.mk.injEq, true_and, and_true, Semaphore.mk.injEq]
    omega

/-- The jobs left in the channel give back what they hold. -/
theorem dropQueue_balanced (h : w.dropQueue = some w') : Balanced w w' 0 0 := by
  unfold dropQueue at h
  split at h
  · rename_i hleft
    have hnone : w.writer.jobs = [] := by rw [hleft]; rfl
    cases h
    rw [foldl_finish]
    have hempty : Writer.dropped.jobs ++ w.queue.close.queue = [] := rfl
    constructor
    · simp only [slotTotal, heldSlots, unfinished, hnone, hempty, giveBack, Semaphore.release,
        List.nil_append, List.length_nil]
      omega
    · simp only [byteTotal, heldBytes, unfinished, hnone, hempty, giveBack, Semaphore.release,
        List.nil_append, held_nil]
      omega
  · cases h

/-- The end of the writer gives nothing back. -/
theorem exit_balanced (h : w.exit = some w') : Balanced w w' 0 0 := by
  unfold exit at h
  split at h
  · rename_i hdropped
    cases h
    have hidle := idle_balanced (w := w) .ended (by rw [hdropped]; rfl) rfl
    exact ⟨hidle.slots, hidle.bytes⟩
  · cases h

end Link

/-- **No move changes the sums.**  Whatever happens, the permits that are held and the free ones
    add up to what they added up to before. -/
theorem step_balanced {w w' : Link} {op : Op} (h : step w op = some w') : w.Balanced w' 0 0 := by
  cases op with
  | tryReserve n =>
    simp only [step] at h
    -- a reservation either fails and changes nothing, or moves its permits to the caller
    split at h
    · rename_i r w₁ hreserve
      cases h
      exact (Link.tryReserve_balanced hreserve).cancel (Link.keep_balanced w₁ r)
    · cases h; exact .refl w
  | reserve n token => cases h; exact w.reserve_balanced n token
  | grantSlot i => exact Link.grantSlot_balanced h
  | grantBytes i n => exact Link.grantBytes_balanced h
  | pollReserve i => exact Link.pollReserve_balanced h
  | dropReserve i =>
    obtain ⟨x, hx, rfl⟩ := Option.map_eq_some_iff.mp h
    exact Link.dropWaiter_balanced hx
  -- a reservation that is dropped gives back its slot and its bytes
  | dropReservation i =>
    exact Link.withReservation_balanced (fun w r => w.giveBack_balanced 1 r.bytes) h
  | submit i raw token =>
    exact Link.withReservation_balanced (fun w r => w.submitData_balanced r raw _ _ _) h
  | submitDetached i raw token =>
    exact Link.withReservation_balanced (fun w r => w.submitData_balanced r raw _ _ _) h
  | send binary raw => cases h; exact w.send_balanced binary raw
  | closeWith code allowed reason => cases h; exact w.closeWith_balanced code allowed reason
  | closeEnds i =>
    simp only [step, Link.closeEnds, Option.bind_eq_bind, Option.bind_eq_some_iff, Option.pure_def,
      Option.some.injEq] at h
    obtain ⟨id, -, rfl⟩ := h
    exact ⟨rfl, rfl⟩
  | close => cases h; exact ⟨rfl, rfl⟩
  | cancel token => cases h; exact ⟨rfl, rfl⟩
  | dropReceipt id =>
    simp only [step] at h
    split at h
    · cases h; exact ⟨rfl, rfl⟩
    · cases h
  | tick elapsed => cases h; exact ⟨rfl, rfl⟩
  | halt reason => exact Link.halt_balanced h
  | take => exact Link.take_balanced h
  | finishWrite how => exact Link.finishWrite_balanced h
  | abort => exact Link.abort_balanced h
  | dropQueue => exact Link.dropQueue_balanced h
  | exit => exact Link.exit_balanced h

end Hmux.Transport
