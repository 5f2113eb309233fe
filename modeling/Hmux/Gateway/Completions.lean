import Std.Data.ExtTreeMap
import Hmux.Lib.Channel
import Hmux.Lib.Chrono
import Hmux.Model.Session
import Hmux.Protocol.Types

namespace Hmux.Gateway

open Hmux.Lib

/-!
# Gateway — admission of completion notifications

Home re-sends a completion until its connection has carried it, so the Gateway drops
duplicates before its bounded notification queue.  Duplicates are recognised by their id for
300 seconds of monotonic time, freshness is judged by the wall clock; one notification is
forwarded at most once because the freshness window is the shorter of the two.

* `CompletionAdmission.enqueue` — the admission step of the source;
* `enqueue_cases` — the three things one call can do;
* `Tracked` — the invariant of whole runs: whatever was put on the queue is still remembered,
  or too old for its retention time;
* `completion_at_most_once` — the run theorem.

`parse` stands for `chrono::DateTime::parse_from_rfc3339`; durations are in nanoseconds.
-/

/-- A completion on its way to the notification consumer. -/
structure CompletionEvent where
  id : String
  session : Pb.Session
  completedAt : String
  deriving DecidableEq

/-- Seconds as nanoseconds. -/
def seconds (n : ℕ) : ℕ := n * 1000000000

/-- How long the id of a forwarded completion is remembered. -/
def retention : ℕ := seconds 300

/-- How many ids are remembered at most. -/
def maxSeen : ℕ := 4096

/-- The ids of the completions put on the queue, with the monotonic time of each. -/
structure CompletionAdmission where
  seen : Std.ExtTreeMap (List UInt8) ℕ

/-- The completion time lies at most a minute ahead of the wall clock and at most two minutes
    behind it. -/
def fresh (completed wall : DateTime) : Bool :=
  !(decide ((seconds 60 : ℤ) < completed.since wall) ||
    decide ((seconds 120 : ℤ) < wall.since completed))

theorem fresh_iff {completed wall : DateTime} :
    fresh completed wall = true ↔
      completed.since wall ≤ seconds 60 ∧ wall.since completed ≤ seconds 120 := by
  simp [fresh]

section

variable (parse : String → Option DateTime)

/-- What a completion must satisfy before the ids are consulted, with the key it is
    remembered under. -/
def checkCompletion (event : Pb.Completion) (wall : DateTime) :
    Option (List UInt8 × CompletionEvent) :=
  let key := bytes event.id
  if key.length ≠ 64 then none
  else if !key.all isAsciiHexdigit then none
  else match event.session with
    | none => none
    | some session =>
      if session.createdAt < 1 || !validateSessionId session.id then none
      else match parse event.completedAt with
        | none => none
        | some completed =>
          if !fresh completed wall then none
          else some (key, { id := event.id, session, completedAt := event.completedAt })

namespace CompletionAdmission

/-- `seen.retain(..)`: forget the ids whose retention is over. -/
def retain (a : CompletionAdmission) (now : ℕ) : CompletionAdmission :=
  ⟨a.seen.filter fun _ at_ => now - at_ ≤ retention⟩

/-- `CompletionAdmission::enqueue`: the next admission state and queue. -/
def enqueue (a : CompletionAdmission) (event : Pb.Completion) (sender : Channel CompletionEvent)
    (wall : DateTime) (now : ℕ) : CompletionAdmission × Channel CompletionEvent :=
  if sender.closed then (a, sender)
  else match checkCompletion parse event wall with
    | none => (a, sender)
    | some (key, e) =>
      let a := a.retain now
      if maxSeen ≤ a.seen.size || a.seen.contains key then (a, sender)
      else match sender.trySend e with
        | some sender => (⟨a.seen.insert key now⟩, sender)
        | none => (a, sender)

end CompletionAdmission

/-! ### One call

The ids that are over are forgotten first, so a call that is refused may still have cleaned the
memory. -/

/-- What a checked completion is: its key is its id, and its time was read and is fresh. -/
theorem checkCompletion_eq_some {event : Pb.Completion} {wall : DateTime} {key : List UInt8}
    {e : CompletionEvent} (h : checkCompletion parse event wall = some (key, e)) :
    key = bytes e.id ∧ e.id = event.id ∧ e.completedAt = event.completedAt ∧
      ∃ completed, parse e.completedAt = some completed ∧ fresh completed wall = true := by
  simp only [checkCompletion] at h
  split at h
  · cases h
  split at h
  · cases h
  split at h
  · cases h
  split at h
  · cases h
  split at h
  · cases h
  rename_i completed hparse
  split at h
  · cases h
  rename_i hfresh
  obtain ⟨rfl, rfl⟩ := Prod.mk.inj (Option.some.inj h)
  exact ⟨rfl, rfl, rfl, completed, hparse, by simpa using hfresh⟩

namespace CompletionAdmission

theorem getElem?_retain (a : CompletionAdmission) (now : ℕ) (key : List UInt8) :
    (a.retain now).seen[key]? = a.seen[key]?.filter fun at_ => now - at_ ≤ retention := by
  simp [retain]

theorem size_retain_le (a : CompletionAdmission) (now : ℕ) :
    (a.retain now).seen.size ≤ a.seen.size := Std.ExtTreeMap.size_filter_le_size

/-- **Step lemma.** One call does nothing, or forgets what is over, or forgets what is over
    and puts the completion on the queue under a new id. -/
theorem enqueue_cases (a : CompletionAdmission) (event : Pb.Completion)
    (sender : Channel CompletionEvent) (wall : DateTime) (now : ℕ) :
    a.enqueue parse event sender wall now = (a, sender) ∨
      a.enqueue parse event sender wall now = (a.retain now, sender) ∨
      ∃ key e, checkCompletion parse event wall = some (key, e) ∧
        key ∉ (a.retain now).seen ∧ (a.retain now).seen.size < maxSeen ∧
        a.enqueue parse event sender wall now =
          (⟨(a.retain now).seen.insert key now⟩,
            { sender with queue := sender.queue ++ [e] }) := by
  rw [enqueue]
  split
  · exact Or.inl rfl
  cases hc : checkCompletion parse event wall with
  | none => exact Or.inl rfl
  | some ke =>
    obtain ⟨key, e⟩ := ke
    dsimp only
    split
    · exact Or.inr (Or.inl rfl)
    · rename_i hroom
      simp only [Bool.or_eq_true, decide_eq_true_eq, not_or, Nat.not_le,
        ← Std.ExtTreeMap.mem_iff_contains] at hroom
      cases hs : sender.trySend e with
      | none => exact Or.inr (Or.inl rfl)
      | some sender' =>
        obtain ⟨-, -, rfl⟩ := Channel.trySend_eq_some.mp hs
        exact Or.inr (Or.inr ⟨key, e, rfl, hroom.2, hroom.1, rfl⟩)

end CompletionAdmission

/-! ### Whole runs

The memory is smaller than the history: it forgets an id when its retention is over, and then the
completion is too old to be accepted again. -/

/-- The Gateway's view of one process life: the time since its start, the admission state,
    the queue, and a record of everything ever put on the queue with its time. -/
structure CompletionWorld where
  time : ℕ
  admission : CompletionAdmission
  queue : Channel CompletionEvent
  sent : List (ℕ × CompletionEvent)

/-- What can happen: a completion arrives `dt` nanoseconds after the last one, the consumer
    takes one, or the consumer goes away. -/
inductive CompletionInput
  | enqueue (event : Pb.Completion) (dt : ℕ)
  | recv
  | close

namespace CompletionWorld

/-- The Gateway at start, with a queue of capacity `n`. -/
def init (n : ℕ) : CompletionWorld :=
  { time := 0, admission := ⟨∅⟩, queue := Channel.new n, sent := [] }

variable (epoch : ℤ) (boot : ℕ)

/-- The wall clock at a time of the run. -/
def wall (time : ℕ) : DateTime := DateTime.ofNanos (epoch + time)

/-- Both clocks read the same elapsed time: `boot` is the monotonic clock at start, `epoch`
    the wall clock at start. -/
def step (w : CompletionWorld) : CompletionInput → CompletionWorld
  | .enqueue event dt =>
    let time := w.time + dt
    let r := w.admission.enqueue parse event w.queue (wall epoch time) (boot + time)
    { time, admission := r.1, queue := r.2,
      sent := w.sent ++ (r.2.queue.drop w.queue.queue.length).map fun e => (time, e) }
  | .recv =>
    match w.queue.recv with
    | some (_, queue) => { w with queue }
    | none => w
  | .close => { w with queue := w.queue.close }

/-- The Gateway after a run. -/
def run (w : CompletionWorld) (inputs : List CompletionInput) : CompletionWorld :=
  inputs.foldl (step parse epoch boot) w

/-- What is known of one completion that was put on the queue: it was fresh then, and its id
    is remembered as long as its retention runs. -/
def Remembered (w : CompletionWorld) (s : ℕ × CompletionEvent) : Prop :=
  s.1 ≤ w.time ∧
    (∃ completed, parse s.2.completedAt = some completed ∧
      fresh completed (wall epoch s.1) = true) ∧
    (w.time ≤ s.1 + retention → ∃ at_, w.admission.seen[bytes s.2.id]? = some at_ ∧
      boot + s.1 ≤ at_)

/-- The invariant of whole runs. -/
structure Tracked (w : CompletionWorld) : Prop where
  size_le : w.admission.seen.size ≤ maxSeen
  remembered : ∀ s ∈ w.sent, w.Remembered parse epoch boot s
  distinct : w.sent.Pairwise fun s t => ¬(s.2.id = t.2.id ∧ s.2.completedAt = t.2.completedAt)

variable {parse epoch boot}

/-- Two fresh copies of one completion are less than the retention apart. -/
theorem fresh_within {completed : DateTime} {s t : ℕ} (hs : fresh completed (wall epoch s) = true)
    (ht : fresh completed (wall epoch t) = true) : t ≤ s + retention := by
  rw [fresh_iff, wall] at hs ht
  have hs' := hs.1
  rw [DateTime.since_symm] at hs'
  have ht' := ht.2
  -- each reading of the wall clock is off by at most the one leap second
  rcases DateTime.since_ofNanos (epoch + s) completed with h | h <;>
    rcases DateTime.since_ofNanos (epoch + t) completed with h' | h' <;>
    rw [h] at hs' <;> rw [h'] at ht' <;> simp only [seconds, retention] at * <;> omega

/-- Forgetting what is over keeps every id whose retention runs. -/
theorem Remembered.retain {w : CompletionWorld} {s : ℕ × CompletionEvent} (dt : ℕ)
    (h : w.Remembered parse epoch boot s) (hdt : w.time + dt ≤ s.1 + retention) :
    ∃ at_, (w.admission.retain (boot + (w.time + dt))).seen[bytes s.2.id]? = some at_ ∧
      boot + s.1 ≤ at_ := by
  obtain ⟨at_, hat, hle⟩ := h.2.2 (by omega)
  refine ⟨at_, ?_, hle⟩
  rw [CompletionAdmission.getElem?_retain, hat]
  exact Option.filter_some_pos (by simp only [decide_eq_true_eq]; omega)

/-- A world that differs in the queue only keeps the invariant. -/
theorem Tracked.queue {w : CompletionWorld} (h : w.Tracked parse epoch boot)
    (queue : Channel CompletionEvent) :
    ({ w with queue } : CompletionWorld).Tracked parse epoch boot :=
  ⟨h.size_le, h.remembered, h.distinct⟩

/-- Time passes and, possibly, what is over is forgotten. -/
theorem Tracked.later {w : CompletionWorld} (h : w.Tracked parse epoch boot) (dt : ℕ)
    {a : CompletionAdmission}
    (ha : a = w.admission ∨ a = w.admission.retain (boot + (w.time + dt))) :
    ({ w with time := w.time + dt, admission := a } : CompletionWorld).Tracked parse epoch
    boot := by
  refine ⟨?_, ?_, h.distinct⟩
  · rcases ha with rfl | rfl
    · exact h.size_le
    · exact le_trans (CompletionAdmission.size_retain_le _ _) h.size_le
  · intro s hs
    have hr := h.remembered s hs
    refine ⟨Nat.le_trans hr.1 (Nat.le_add_right _ _), hr.2.1, fun htime => ?_⟩
    rcases ha with rfl | rfl
    · exact hr.2.2 (by simp only at htime; omega)
    · exact hr.retain dt htime

/-- **Step lemma.** Every input keeps the invariant. -/
theorem tracked_step {w : CompletionWorld} (h : w.Tracked parse epoch boot)
    (input : CompletionInput) : (w.step parse epoch boot input).Tracked parse epoch boot := by
  cases input with
  | recv =>
    rw [step]
    split
    · exact h.queue _
    · exact h
  | close => exact h.queue _
  | enqueue event dt =>
    simp only [step]
    rcases w.admission.enqueue_cases parse event w.queue (wall epoch (w.time + dt))
      (boot + (w.time + dt)) with heq | heq | ⟨key, e, hcheck, hnew, hroom, heq⟩
    · rw [heq]
      simpa using (h.later dt (Or.inl rfl)).queue w.queue
    · rw [heq]
      simpa using (h.later dt (Or.inr rfl)).queue w.queue
    · obtain ⟨rfl, -, -, completed, hparse, hfresh⟩ := checkCompletion_eq_some parse hcheck
      rw [heq]
      simp only [List.drop_left, List.map_cons, List.map_nil]
      refine ⟨?_, ?_, ?_⟩
      · exact le_trans Std.ExtTreeMap.size_insert_le hroom
      · intro s hs
        rw [List.mem_append, List.mem_singleton] at hs
        rcases hs with hs | rfl
        · -- an older completion: its id is the new one, or is kept as it was
          have hr := h.remembered s hs
          refine ⟨Nat.le_trans hr.1 (Nat.le_add_right _ _), hr.2.1, fun htime => ?_⟩
          obtain ⟨at_, hat, hle⟩ := hr.retain dt htime
          by_cases hkey : bytes e.id = bytes s.2.id
          · exact ⟨boot + (w.time + dt), by simp [hkey], by have := hr.1; omega⟩
          · exact ⟨at_, by simp [Std.ExtTreeMap.getElem?_insert, hkey, hat], hle⟩
        · exact ⟨le_refl _, ⟨completed, hparse, hfresh⟩, fun _ => ⟨_, by simp, le_refl _⟩⟩
      · rw [List.pairwise_append]
        refine ⟨h.distinct, List.pairwise_singleton _ _, ?_⟩
        intro s hs t ht ⟨hid, hat⟩
        rw [List.mem_singleton] at ht
        subst ht
        -- the same completion twice: the first one is still remembered
        have hr := h.remembered s hs
        obtain ⟨completed', hparse', hfresh'⟩ := hr.2.1
        rw [hat, hparse, Option.some.injEq] at hparse'
        subst hparse'
        obtain ⟨at_, hmem, -⟩ := hr.retain dt (fresh_within hfresh' hfresh)
        rw [hid] at hmem
        exact hnew (Std.ExtTreeMap.mem_iff_isSome_getElem?.mpr (by rw [hmem]; rfl))

theorem tracked_init (n : ℕ) : (init n).Tracked parse epoch boot :=
  ⟨Nat.zero_le _, fun _ hs => absurd hs List.not_mem_nil, List.Pairwise.nil⟩

/-- **Run lemma.** Every run keeps the invariant. -/
theorem tracked_run {w : CompletionWorld} (h : w.Tracked parse epoch boot)
    (inputs : List CompletionInput) : (w.run parse epoch boot inputs).Tracked parse epoch boot := by
  induction inputs generalizing w with
  | nil => exact h
  | cons i inputs ih => exact ih (tracked_step h i)

/-- A predicate that no two entries share holds of at most one. -/
theorem countP_le_one {α : Type*} {p : α → Bool} {l : List α}
    (h : l.Pairwise fun s t => ¬(p s = true ∧ p t = true)) : l.countP p ≤ 1 := by
  induction l with
  | nil => exact Nat.zero_le _
  | cons a l ih =>
    rw [List.pairwise_cons] at h
    by_cases ha : p a = true
    · have hzero : l.countP p = 0 := List.countP_eq_zero.mpr fun t ht hp => h.1 t ht ⟨ha, hp⟩
      rw [List.countP_cons_of_pos ha, hzero]
    · rw [List.countP_cons_of_neg ha]
      exact ih h.2

/-! ### A full queue

A completion that finds the queue full is not remembered, so that a retry finds the id free; the
part of the run in between is followed with what was put on the queue since. -/

variable (parse epoch boot) in
/-- The completion arrives `dt` later and passes every check, but the queue is full. -/
def FindsFull (w : CompletionWorld) (event : Pb.Completion) (dt : ℕ) : Prop :=
  w.queue.closed = false ∧ w.queue.capacity ≤ w.queue.queue.length ∧
    (checkCompletion parse event (wall epoch (w.time + dt))).isSome ∧
      bytes event.id ∉ (w.admission.retain (boot + (w.time + dt))).seen

variable (parse epoch boot) in
/-- The completion arrives `dt` later and passes the checks, the queue has room, and so has
    the memory of ids once it is cleaned. -/
def FindsRoom (w : CompletionWorld) (event : Pb.Completion) (dt : ℕ) : Prop :=
  w.queue.closed = false ∧ w.queue.queue.length < w.queue.capacity ∧
    (checkCompletion parse event (wall epoch (w.time + dt))).isSome ∧
      (w.admission.retain (boot + (w.time + dt))).seen.size < maxSeen

/-- `new` is what was put on the queue since `w₀`, and every id remembered since then is of
    one of these. -/
def Since (w₀ w : CompletionWorld) (new : List (ℕ × CompletionEvent)) : Prop :=
  w.sent = w₀.sent ++ new ∧
    ∀ key ∈ w.admission.seen, key ∈ w₀.admission.seen ∨ ∃ s ∈ new, bytes s.2.id = key

theorem since_refl (w : CompletionWorld) : Since w w [] :=
  ⟨(List.append_nil _).symm, fun _ hk => Or.inl hk⟩

variable (parse epoch boot) in
theorem since_step {w₀ w : CompletionWorld} {new : List (ℕ × CompletionEvent)}
    (h : Since w₀ w new) (input : CompletionInput) :
    ∃ new', Since w₀ (w.step parse epoch boot input) new' := by
  have hretain : ∀ now, ∀ key ∈ (w.admission.retain now).seen, key ∈ w.admission.seen :=
    fun _ _ hmem => Std.ExtTreeMap.mem_of_mem_filter hmem
  cases input with
  | recv =>
    rw [step]
    split
    · exact ⟨new, h⟩
    · exact ⟨new, h⟩
  | close => exact ⟨new, h⟩
  | enqueue event dt =>
    simp only [step]
    rcases w.admission.enqueue_cases parse event w.queue (wall epoch (w.time + dt))
      (boot + (w.time + dt)) with heq | heq | ⟨key, e, hcheck, -, -, heq⟩
    · rw [heq]
      exact ⟨new, by simpa using h.1, h.2⟩
    · rw [heq]
      exact ⟨new, by simpa using h.1, fun key hkey => h.2 key (hretain _ key hkey)⟩
    · obtain ⟨rfl, -⟩ := checkCompletion_eq_some parse hcheck
      rw [heq]
      refine ⟨new ++ [(w.time + dt, e)], by simp [h.1], fun key hkey => ?_⟩
      rw [Std.ExtTreeMap.mem_insert, Std.compare_eq_iff_eq] at hkey
      rcases hkey with hkey | hkey
      · exact Or.inr ⟨_, List.mem_append_right _ (List.mem_singleton_self _), hkey⟩
      · rcases h.2 key (hretain _ key hkey) with hold | ⟨s, hs, hskey⟩
        · exact Or.inl hold
        · exact Or.inr ⟨s, List.mem_append_left _ hs, hskey⟩

variable (parse epoch boot) in
theorem since_run {w₀ w : CompletionWorld} {new : List (ℕ × CompletionEvent)}
    (h : Since w₀ w new) (inputs : List CompletionInput) :
    ∃ new', Since w₀ (w.run parse epoch boot inputs) new' := by
  induction inputs generalizing w new with
  | nil => exact ⟨new, h⟩
  | cons i inputs ih =>
    obtain ⟨new', h'⟩ := since_step parse epoch boot h i
    exact ih h'

/-- An attempt that finds the queue full does not remember the id. -/
theorem FindsFull.not_mem {w : CompletionWorld} {event : Pb.Completion} {dt : ℕ}
    (h : w.FindsFull parse epoch boot event dt) :
    bytes event.id ∉ (w.step parse epoch boot (.enqueue event dt)).admission.seen := by
  obtain ⟨hopen, hfull, hcheck, hnew⟩ := h
  obtain ⟨⟨key, e⟩, hcheck⟩ := Option.isSome_iff_exists.mp hcheck
  have hs : w.queue.trySend e = none := Channel.trySend_eq_none.mpr (Or.inr hfull)
  simp only [step, CompletionAdmission.enqueue, hopen, hcheck, hs, Bool.false_eq_true, if_false,
    ite_self]
  exact hnew

/-- A checked completion with a new id and room for it is put on the queue. -/
theorem FindsRoom.sent {w : CompletionWorld} {event : Pb.Completion} {dt : ℕ}
    (h : w.FindsRoom parse epoch boot event dt) (hnew : bytes event.id ∉ w.admission.seen) :
    ∃ e, e.id = event.id ∧ e.completedAt = event.completedAt ∧
      (w.step parse epoch boot (.enqueue event dt)).queue.queue = w.queue.queue ++ [e] ∧
      (w.step parse epoch boot (.enqueue event dt)).sent = w.sent ++ [(w.time + dt, e)] := by
  obtain ⟨hopen, hroom, hcheck, hsize⟩ := h
  obtain ⟨⟨key, e⟩, hcheck⟩ := Option.isSome_iff_exists.mp hcheck
  obtain ⟨rfl, hid, hat, -⟩ := checkCompletion_eq_some parse hcheck
  have hs : w.queue.trySend e = some { w.queue with queue := w.queue.queue ++ [e] } :=
    Channel.trySend_eq_some.mpr ⟨hopen, hroom, rfl⟩
  have hkey : (w.admission.retain (boot + (w.time + dt))).seen.contains (bytes e.id) = false := by
    rw [Bool.eq_false_iff, hid, ne_eq, ← Std.ExtTreeMap.mem_iff_contains]
    exact fun hmem => hnew (Std.ExtTreeMap.mem_of_mem_filter hmem)
  refine ⟨e, hid, hat, ?_⟩
  simp [step, CompletionAdmission.enqueue, hopen, hcheck, hs, hkey, Nat.not_le.mpr hsize]

variable (parse epoch boot) in
/-- **At most once.** In every run, with the consumer slow or gone as it likes, a pair of id
    and completion time is put on the queue at most once and at most 4096 ids are remembered.
    An attempt that finds the queue full does not remember its id, so a later copy that finds
    room is delivered, unless the id was put on the queue in the meantime. -/
theorem completion_at_most_once (n : ℕ) (inputs : List CompletionInput) :
    let w := (init n).run parse epoch boot inputs
    (∀ id completedAt,
      w.sent.countP (fun s => s.2.id = id ∧ s.2.completedAt = completedAt) ≤ 1) ∧
    w.admission.seen.size ≤ maxSeen ∧
    ∀ event dt, w.FindsFull parse epoch boot event dt →
      let w₁ := w.step parse epoch boot (.enqueue event dt)
      bytes event.id ∉ w₁.admission.seen ∧
      ∀ more again dt',
        let w₂ := w₁.run parse epoch boot more
        again.id = event.id → (∀ s ∈ w₂.sent.drop w₁.sent.length, s.2.id ≠ event.id) →
        w₂.FindsRoom parse epoch boot again dt' →
        ∃ e, e.id = again.id ∧ e.completedAt = again.completedAt ∧
          (w₂.step parse epoch boot (.enqueue again dt')).queue.queue = w₂.queue.queue ++ [e] := by
  have h : ((init n).run parse epoch boot inputs).Tracked parse epoch boot :=
    tracked_run (tracked_init n) inputs
  refine ⟨fun id completedAt => ?_, h.size_le, fun event dt hfull => ⟨hfull.not_mem, ?_⟩⟩
  · refine countP_le_one (h.distinct.imp fun hne hboth => hne ?_)
    simp only [decide_eq_true_eq] at hboth
    exact ⟨hboth.1.1.trans hboth.2.1.symm, hboth.1.2.trans hboth.2.2.symm⟩
  · intro more again dt' w₂ hid hnone hroom
    obtain ⟨new, hsent, hseen⟩ := since_run parse epoch boot
      (since_refl (((init n).run parse epoch boot inputs).step parse epoch boot
        (.enqueue event dt)))
      more
    have hnew : bytes again.id ∉ w₂.admission.seen := by
      intro hmem
      rcases hseen _ hmem with hold | ⟨s, hs, hkey⟩
      · rw [hid] at hold
        exact hfull.not_mem hold
      · refine hnone s ?_ ?_
        · rw [show w₂.sent = _ from hsent, List.drop_left]
          exact hs
        · exact (bytes_inj.mp hkey).trans hid
    obtain ⟨e, h1, h2, h3, -⟩ := hroom.sent hnew
    exact ⟨e, h1, h2, h3⟩

namespace CompletionsExample

/-- The one time the example reads. -/
def readTime (s : String) : Option DateTime :=
  if s = "1970-01-01T00:00:00Z" then some (DateTime.ofNanos 0) else none

/-- A completion at that time with an id of 64 equal digits. -/
def completion (digit : Char) : Pb.Completion :=
  { id := String.ofList (List.replicate 64 digit), session := some { id := "$1", createdAt := 1 },
    completedAt := "1970-01-01T00:00:00Z" }

/-- With one slot: the second completion finds the queue full, and is delivered when it is
    sent again after the consumer took the first. -/
theorem completion_at_most_once_retry :
    let w := (init 1).run readTime 0 0 [.enqueue (completion 'a') (seconds 1)]
    let w₁ := w.step readTime 0 0 (.enqueue (completion 'b') (seconds 2))
    let w₂ := w₁.run readTime 0 0 [.recv]
    w.FindsFull readTime 0 0 (completion 'b') (seconds 2) ∧
      ∃ e, e.id = (completion 'b').id ∧ e.completedAt = (completion 'b').completedAt ∧
        (w₂.step readTime 0 0 (.enqueue (completion 'b') (seconds 3))).queue.queue
          = w₂.queue.queue ++ [e] := by
  have hfull : ((init 1).run readTime 0 0 [.enqueue (completion 'a') (seconds 1)]).FindsFull
      readTime 0 0 (completion 'b') (seconds 2) := by
    unfold FindsFull
    decide +kernel
  refine ⟨hfull, ?_⟩
  have h := (completion_at_most_once readTime 0 0 1
    [.enqueue (completion 'a') (seconds 1)]).2.2 (completion 'b') (seconds 2) hfull
  refine h.2 [.recv] (completion 'b') (seconds 3) rfl (by decide +kernel) ?_
  unfold FindsRoom
  decide +kernel

end CompletionsExample

end CompletionWorld

end

end Hmux.Gateway
