import Hmux.Transport.Permits

namespace Hmux.Transport

open Hmux.Lib

/-!
# The line of jobs

What the connection does to its jobs, without permits, deadlines and tokens: jobs enter a
first-in first-out line, and the writer takes the oldest one and passes over it, or writes it.
`Move` lists what can happen on the line, `step_move` shows that the connection does nothing
else, and everything about order, receipts and writes is proved on the line.

* `Line.Inv` — the invariant: the frames on the socket and the queued ones are, in this order,
  among the submitted ones, and a receipt that nobody dropped has one answer as soon as its job is
  over;
* `Move.inv` — every move keeps it.

The line is an abstraction of the connection that forgets why a job is passed over and who holds
which permit.  A fact about order or receipts is proved once for each kind of move, and there are
fewer kinds of moves than operations.
-/

/-- The part of a connection that says what became of its jobs. -/
structure Line where
  queue : Channel Job
  writer : Writer
  accepted : List Job
  replies : List (ℕ × Except Error Unit)
  started : List Job
  written : List Job

def Link.line (w : Link) : Line :=
  { queue := w.queue, writer := w.writer, accepted := w.accepted, replies := w.replies
    started := w.started, written := w.written }

namespace Line

/-- The jobs that are not over. -/
def unfinished (l : Line) : List Job := l.writer.jobs ++ l.queue.queue

end Line

/-- A move on the line; `dropped` are the receipts nobody holds any more, and `Doomed` the jobs
    the writer passes over. -/
inductive Move (dropped : List ℕ) (Doomed : Job → Prop) : Line → Line → Prop
  | none (l : Line) : Move dropped Doomed l l
  /-- A job is submitted. -/
  | accept (l : Line) (job : Job) (queue : Channel Job) (hid : job.id = l.accepted.length)
      (hsend : l.queue.trySend job = some queue) :
      Move dropped Doomed l { l with queue, accepted := l.accepted ++ [job] }
  /-- The writer passes over a job; it leaves the loop if nobody would learn about it. -/
  | skip (l : Line) (job : Job) (queue : Channel Job) (error : Error)
      (hwaiting : l.writer = .waiting) (hrecv : l.queue.recv = some (job, queue))
      (hdoomed : Doomed job) :
      Move dropped Doomed l
        { l with
          queue
          replies := answer dropped l.replies job (.error error)
          writer := if job.reply then .waiting else .left }
  /-- The writer starts to write a job. -/
  | begin (l : Line) (job : Job) (queue : Channel Job)
      (hwaiting : l.writer = .waiting) (hrecv : l.queue.recv = some (job, queue))
      (hdoomed : ¬Doomed job) :
      Move dropped Doomed l
        { l with queue, writer := .writing job, started := l.started ++ [job] }
  /-- The whole frame is written. -/
  | sent (l : Line) (job : Job) (writer : Writer) (hwriting : l.writer = .writing job)
      (hnext : writer = .waiting ∨ writer = .left) :
      Move dropped Doomed l
        { l with
          writer
          replies := answer dropped l.replies job (.ok ())
          written := l.written ++ [job] }
  /-- The write failed, and the writer leaves its loop. -/
  | failed (l : Line) (job : Job) (error : Error) (hwriting : l.writer = .writing job) :
      Move dropped Doomed l
        { l with writer := .left, replies := answer dropped l.replies job (.error error) }
  /-- The writer leaves its loop. -/
  | leave (l : Line) (hwaiting : l.writer = .waiting) :
      Move dropped Doomed l { l with writer := .left }
  /-- The channel is dropped with every queued job. -/
  | dropAll (l : Line) (hleft : l.writer = .left) :
      Move dropped Doomed l
        { l with
          queue := l.queue.close
          writer := .dropped
          replies := l.queue.queue.foldl
            (fun rs job => answer dropped rs job (.error .closed)) l.replies }
  /-- The writer ends. -/
  | end (l : Line) (hdropped : l.writer = .dropped) :
      Move dropped Doomed l { l with writer := .ended }

/-! ### Receipts

A receipt is answered when its job is over and not before, and with what became of the job. -/

section
variable {accepted rest : List Job} {replies : List (ℕ × Except Error Unit)}
  {written written' : List Job} {dropped : List ℕ} {job : Job} {result : Except Error Unit}

/-- The answers so far: every receipt whose job is over has one, or was dropped, and every
    answer belongs to such a receipt and tells the truth. -/
structure Answered (accepted unfinished : List Job) (replies : List (ℕ × Except Error Unit))
    (written : List Job) (dropped : List ℕ) : Prop where
  answered : ∀ j ∈ accepted, j.reply = true →
    j ∈ unfinished ∨ j.id ∈ replies.map Prod.fst ∨ j.id ∈ dropped
  once : (replies.map Prod.fst).Nodup
  sound : ∀ p ∈ replies, ∃ j ∈ accepted, j.id = p.1 ∧ j.reply = true ∧ j ∉ unfinished ∧
    (p.2 = .ok () → j ∈ written)

theorem mem_answer {p : ℕ × Except Error Unit} (h : p ∈ answer dropped replies job result) :
    p ∈ replies ∨ job.reply = true ∧ p = (job.id, result) := by
  rw [answer] at h
  split at h
  · rename_i hreply
    rcases List.mem_append.mp h with h | h
    · exact .inl h
    · exact .inr ⟨hreply.1, List.mem_singleton.mp h⟩
  · exact .inl h

theorem subset_answer : replies ⊆ answer dropped replies job result := by
  rw [answer]
  split
  · exact List.subset_append_left _ _
  · exact List.Subset.refl _

theorem answered_self (hreply : job.reply = true) :
    job.id ∈ (answer dropped replies job result).map Prod.fst ∨ job.id ∈ dropped := by
  by_cases hdropped : job.id ∈ dropped
  · exact .inr hdropped
  · rw [answer, if_pos ⟨hreply, hdropped⟩]
    exact .inl (by simp)

/-- **A job is over.**  Its receipt gets the one answer it has. -/
theorem Answered.finish (h : Answered accepted (job :: rest) replies written dropped)
    (hnodup : (accepted.map Job.id).Nodup) (hsub : (job :: rest).Sublist accepted)
    (hwritten : written ⊆ written') (hok : result = .ok () → job ∈ written') :
    Answered accepted rest (answer dropped replies job result) written' dropped := by
  have hjob : job ∈ accepted := hsub.subset List.mem_cons_self
  have hfresh : job ∉ rest := by
    have hpair : ((job :: rest).map Job.id).Nodup := (hsub.map Job.id).nodup hnodup
    rw [List.map_cons, List.nodup_cons] at hpair
    exact fun hmem => hpair.1 (List.mem_map_of_mem hmem)
  -- No answer so far can be this job's: it was not over.
  have hnew : job.id ∉ replies.map Prod.fst := by
    intro hmem
    obtain ⟨p, hp, hid⟩ := List.mem_map.mp hmem
    obtain ⟨j, hj, hjid, -, hout, -⟩ := h.sound p hp
    obtain rfl := List.inj_on_of_nodup_map hnodup hj hjob (hjid.trans hid)
    exact hout List.mem_cons_self
  refine ⟨?_, ?_, ?_⟩
  · intro j hj hreply
    rcases h.answered j hj hreply with hmem | hmem | hmem
    · rcases List.mem_cons.mp hmem with rfl | hmem
      · exact .inr (answered_self hreply)
      · exact .inl hmem
    · exact .inr (.inl (List.map_subset _ subset_answer hmem))
    · exact .inr (.inr hmem)
  · rw [answer]
    split
    · rw [List.map_append, List.map_singleton]
      exact h.once.append (List.nodup_singleton _) (by simpa using hnew)
    · exact h.once
  · intro p hp
    rcases mem_answer hp with hp | ⟨hreply, rfl⟩
    · obtain ⟨j, hj, hid, hreply, hout, hwhole⟩ := h.sound p hp
      exact ⟨j, hj, hid, hreply, fun hmem => hout (List.mem_cons_of_mem _ hmem),
        fun hp2 => hwritten (hwhole hp2)⟩
    · exact ⟨job, hjob, rfl, hreply, hfresh, hok⟩

/-- Every job of a list is over. -/
theorem Answered.finishAll {jobs : List Job} {error : Error}
    (h : Answered accepted jobs replies written dropped)
    (hnodup : (accepted.map Job.id).Nodup) (hsub : jobs.Sublist accepted) :
    Answered accepted []
      (jobs.foldl (fun rs job => answer dropped rs job (.error error)) replies) written
      dropped := by
  induction jobs generalizing replies with
  | nil => exact h
  | cons job jobs ih =>
    rw [List.foldl_cons]
    exact ih (h.finish hnodup hsub (List.Subset.refl _) (fun he => by cases he))
      ((List.sublist_cons_self job jobs).trans hsub)

end
/-! ### The invariant

The jobs that were submitted are over, in the writer's hands or queued, and this is also their
order. -/

/-- What is true of the line at every moment. -/
structure Line.Inv (l : Line) (dropped : List ℕ) : Prop where
  capacity : l.queue.capacity = queuedFrames
  ids : l.accepted.map Job.id = List.range l.accepted.length
  order : (l.started ++ l.queue.queue).Sublist l.accepted
  whole : (l.written ++ l.writer.jobs).Sublist l.started
  /-- Only a receipt lets a job disappear while the writer goes on. -/
  kept : ∀ j ∈ l.accepted, j ∈ l.started ∨ j ∈ l.queue.queue ∨
    (j.reply = false → l.writer.gone = true)
  shut : l.writer = .dropped ∨ l.writer = .ended → l.queue.closed = true ∧ l.queue.queue = []
  answers : Answered l.accepted l.unfinished l.replies l.written dropped

section
variable {l l' : Line} {dropped : List ℕ} {Doomed : Job → Prop} {job : Job} {queue : Channel Job}

theorem Line.Inv.nodup (h : l.Inv dropped) : (l.accepted.map Job.id).Nodup := by
  rw [h.ids]
  exact List.nodup_range

theorem Line.Inv.unfinished_sublist (h : l.Inv dropped) : l.unfinished.Sublist l.accepted := by
  have hwriter : l.writer.jobs.Sublist l.started := (List.sublist_append_right _ _).trans h.whole
  exact (hwriter.append (List.Sublist.refl _)).trans h.order

/-- A job that has been started is not in the queue. -/
theorem Line.Inv.not_queued {j : Job} (h : l.Inv dropped) (hj : j ∈ l.started) :
    j ∉ l.queue.queue := by
  have hnodup : (l.started ++ l.queue.queue).Nodup :=
    ((h.order.map Job.id).nodup h.nodup).of_map
  exact List.disjoint_of_nodup_append hnodup hj

/-- A newly dropped receipt asks less of the answers. -/
theorem Line.Inv.mono {dropped' : List ℕ} (h : l.Inv dropped) (hsub : dropped ⊆ dropped') :
    l.Inv dropped' :=
  { h with
    answers :=
      { h.answers with
        answered := fun j hj hreply => by
          rcases h.answers.answered j hj hreply with hmem | hmem | hmem
          · exact .inl hmem
          · exact .inr (.inl hmem)
          · exact .inr (.inr (hsub hmem)) } }

theorem accept_inv (h : l.Inv dropped) (hid : job.id = l.accepted.length)
    (hsend : l.queue.trySend job = some queue) :
    Line.Inv { l with queue, accepted := l.accepted ++ [job] } dropped := by
  obtain ⟨hopen, -, rfl⟩ := Channel.trySend_eq_some.mp hsend
  -- ids are given in order, so that the new one is larger than every id before it
  have hnew : ∀ j ∈ l.accepted, j.id < job.id := by
    intro j hj
    have hmem : j.id ∈ l.accepted.map Job.id := List.mem_map_of_mem hj
    rw [h.ids, List.mem_range, ← hid] at hmem
    exact hmem
  refine ⟨h.capacity, ?_, ?_, h.whole, ?_, ?_, ?_, h.answers.once, ?_⟩
  · show (l.accepted ++ [job]).map Job.id = List.range (l.accepted ++ [job]).length
    rw [List.map_append, h.ids, List.length_append, List.length_singleton, List.range_succ,
      List.map_singleton, hid]
  -- the job joins the end of the queue
  · show (l.started ++ (l.queue.queue ++ [job])).Sublist (l.accepted ++ [job])
    rw [← List.append_assoc]
    exact h.order.append (List.Sublist.refl _)
  · intro j hj
    rcases List.mem_append.mp hj with hj | hj
    · rcases h.kept j hj with hmem | hmem | hgone
      · exact .inl hmem
      · exact .inr (.inl (List.mem_append_left _ hmem))
      · exact .inr (.inr hgone)
    · exact .inr (.inl (List.mem_append_right _ hj))
  -- it was accepted, so the channel is open and nobody has left
  · intro hgone
    have hclosed := (h.shut hgone).1
    rw [hopen] at hclosed
    cases hclosed
  · intro j hj hreply
    rcases List.mem_append.mp hj with hj | hj
    · rcases h.answers.answered j hj hreply with hmem | hmem
      · refine .inl ?_
        show j ∈ l.writer.jobs ++ (l.queue.queue ++ [job])
        rw [← List.append_assoc]
        exact List.mem_append_left _ hmem
      · exact .inr hmem
    · refine .inl ?_
      show j ∈ l.writer.jobs ++ (l.queue.queue ++ [job])
      exact List.mem_append_right _ (List.mem_append_right _ hj)
  -- a job that was answered has a smaller id, so the new one is not among the unfinished
  · intro p hp
    obtain ⟨j, hj, hjid, hreply, hout, hwhole⟩ := h.answers.sound p hp
    refine ⟨j, List.mem_append_left _ hj, hjid, hreply, ?_, hwhole⟩
    show j ∉ l.writer.jobs ++ (l.queue.queue ++ [job])
    rw [← List.append_assoc, List.mem_append, not_or, List.mem_singleton]
    refine ⟨hout, ?_⟩
    rintro rfl
    exact absurd (hnew j hj) (Nat.lt_irrefl _)

theorem skip_inv (h : l.Inv dropped) (hwaiting : l.writer = .waiting)
    (hrecv : l.queue.recv = some (job, queue)) (error : Error) :
    Line.Inv
      { l with
        queue
        replies := answer dropped l.replies job (.error error)
        writer := if job.reply then .waiting else .left } dropped := by
  obtain ⟨rest, hqueue, rfl⟩ := Channel.recv_eq_some.mp hrecv
  -- a job that is passed over leaves nothing in the writer's hands
  have hnone : (if job.reply then Writer.waiting else Writer.left).jobs = [] := by
    split <;> rfl
  have hun : l.unfinished = job :: rest := by
    rw [Line.unfinished, hwaiting, hqueue]
    rfl
  have hsub := h.unfinished_sublist
  have hans := h.answers
  rw [hun] at hsub hans
  refine ⟨h.capacity, h.ids, ?_, ?_, ?_, ?_, ?_⟩
  · show (l.started ++ rest).Sublist l.accepted
    refine List.Sublist.trans ?_ h.order
    rw [hqueue]
    exact (List.Sublist.refl _).append (List.sublist_cons_self job rest)
  · show (l.written ++ Writer.jobs _).Sublist l.started
    rw [hnone, List.append_nil]
    exact (List.sublist_append_left _ _).trans h.whole
  -- the job that was skipped counts as gone only when it wanted an answer
  · intro j hj
    rcases h.kept j hj with hmem | hmem | hgone
    · exact .inl hmem
    · rw [hqueue] at hmem
      rcases List.mem_cons.mp hmem with rfl | hmem
      · refine .inr (.inr fun hreply => ?_)
        show (if j.reply then Writer.waiting else Writer.left).gone = true
        rw [hreply]
        rfl
      · exact .inr (.inl hmem)
    · refine .inr (.inr fun hreply => ?_)
      have hgone := hgone hreply
      rw [hwaiting] at hgone
      cases hgone
  · intro hgone
    simp only at hgone
    split at hgone
    · rcases hgone with hgone | hgone <;> cases hgone
    · rcases hgone with hgone | hgone <;> cases hgone
  · show Answered l.accepted (Writer.jobs _ ++ rest) _ l.written dropped
    rw [hnone]
    exact hans.finish h.nodup hsub (List.Subset.refl _) (fun he => by cases he)

theorem begin_inv (h : l.Inv dropped) (hwaiting : l.writer = .waiting)
    (hrecv : l.queue.recv = some (job, queue)) :
    Line.Inv { l with queue, writer := .writing job, started := l.started ++ [job] } dropped := by
  obtain ⟨rest, hqueue, rfl⟩ := Channel.recv_eq_some.mp hrecv
  have hun : l.unfinished = job :: rest := by
    rw [Line.unfinished, hwaiting, hqueue]
    rfl
  have hans := h.answers
  rw [hun] at hans
  have hwhole := h.whole
  rw [hwaiting] at hwhole
  refine ⟨h.capacity, h.ids, ?_, ?_, ?_, ?_, hans⟩
  · show (l.started ++ [job] ++ rest).Sublist l.accepted
    rw [List.append_assoc]
    have horder := h.order
    rw [hqueue] at horder
    exact horder
  · show (l.written ++ [job]).Sublist (l.started ++ [job])
    have hwritten : l.written.Sublist l.started := (List.sublist_append_left _ _).trans hwhole
    exact hwritten.append (List.Sublist.refl _)
  · intro j hj
    rcases h.kept j hj with hmem | hmem | hgone
    · exact .inl (List.mem_append_left _ hmem)
    · rw [hqueue] at hmem
      rcases List.mem_cons.mp hmem with rfl | hmem
      · exact .inl (List.mem_append_right _ List.mem_cons_self)
      · exact .inr (.inl hmem)
    · refine .inr (.inr fun hreply => ?_)
      have hgone := hgone hreply
      rw [hwaiting] at hgone
      cases hgone
  · intro hgone
    rcases hgone with hgone | hgone <;> cases hgone

/-- The job in the writer's hands is over. -/
theorem over_inv {writer : Writer} {written : List Job} {result : Except Error Unit}
    (h : l.Inv dropped) (hwriting : l.writer = .writing job) (hnone : writer.jobs = [])
    (hshut : writer ≠ .dropped ∧ writer ≠ .ended)
    (hwritten : l.written ⊆ written) (hstarted : written.Sublist l.started)
    (hok : result = .ok () → job ∈ written) :
    Line.Inv { l with writer, written, replies := answer dropped l.replies job result }
    dropped := by
  have hun : l.unfinished = job :: l.queue.queue := by
    rw [Line.unfinished, hwriting]
    rfl
  have hsub := h.unfinished_sublist
  have hans := h.answers
  rw [hun] at hsub hans
  refine ⟨h.capacity, h.ids, h.order, ?_, ?_, ?_, ?_⟩
  · show (written ++ writer.jobs).Sublist l.started
    rw [hnone, List.append_nil]
    exact hstarted
  · intro j hj
    rcases h.kept j hj with hmem | hmem | hgone
    · exact .inl hmem
    · exact .inr (.inl hmem)
    · refine .inr (.inr fun hreply => ?_)
      have hgone := hgone hreply
      rw [hwriting] at hgone
      cases hgone
  · intro hgone
    rcases hgone with hgone | hgone
    · exact absurd hgone hshut.1
    · exact absurd hgone hshut.2
  · show Answered l.accepted (writer.jobs ++ l.queue.queue) _ written dropped
    rw [hnone]
    exact hans.finish h.nodup hsub hwritten hok

theorem sent_inv {writer : Writer} (h : l.Inv dropped) (hwriting : l.writer = .writing job)
    (hnext : writer = .waiting ∨ writer = .left) :
    Line.Inv
      { l with
        writer
        replies := answer dropped l.replies job (.ok ())
        written := l.written ++ [job] } dropped := by
  have hnone : writer.jobs = [] := by rcases hnext with rfl | rfl <;> rfl
  have hshut : writer ≠ .dropped ∧ writer ≠ .ended := by
    rcases hnext with rfl | rfl <;> exact ⟨nofun, nofun⟩
  have hwhole := h.whole
  rw [hwriting] at hwhole
  exact over_inv h hwriting hnone hshut (List.subset_append_left _ _) hwhole
    (fun _ => List.mem_append_right _ List.mem_cons_self)

theorem failed_inv (h : l.Inv dropped) (hwriting : l.writer = .writing job) (error : Error) :
    Line.Inv
      { l with writer := .left, replies := answer dropped l.replies job (.error error) } dropped :=
  over_inv h hwriting rfl ⟨nofun, nofun⟩ (List.Subset.refl _)
    ((List.sublist_append_left _ _).trans h.whole) (fun he => by cases he)

theorem dropAll_inv (h : l.Inv dropped) (hleft : l.writer = .left) :
    Line.Inv
      { l with
        queue := l.queue.close
        writer := .dropped
        replies := l.queue.queue.foldl
          (fun rs job => answer dropped rs job (.error .closed)) l.replies } dropped := by
  have hun : l.unfinished = l.queue.queue := by
    rw [Line.unfinished, hleft]
    rfl
  have hsub := h.unfinished_sublist
  have hans := h.answers
  rw [hun] at hsub hans
  have hwhole := h.whole
  rw [hleft] at hwhole
  refine ⟨h.capacity, h.ids, ?_, hwhole, fun _ _ => .inr (.inr fun _ => rfl),
    fun _ => ⟨rfl, rfl⟩, hans.finishAll h.nodup hsub⟩
  show (l.started ++ []).Sublist l.accepted
  rw [List.append_nil]
  exact (List.sublist_append_left _ _).trans h.order

/-- **Every move keeps the invariant.** -/
theorem Move.inv (h : Move dropped Doomed l l') (hinv : l.Inv dropped) : l'.Inv dropped := by
  cases h with
  | none => exact hinv
  | accept job queue hid hsend => exact accept_inv hinv hid hsend
  | skip job queue error hwaiting hrecv _ => exact skip_inv hinv hwaiting hrecv error
  | begin job queue hwaiting hrecv _ => exact begin_inv hinv hwaiting hrecv
  | sent job writer hwriting hnext => exact sent_inv hinv hwriting hnext
  | failed job error hwriting => exact failed_inv hinv hwriting error
  | leave hwaiting =>
    have hwhole := hinv.whole
    have hans := hinv.answers
    rw [Line.unfinished, hwaiting] at hans
    rw [hwaiting] at hwhole
    exact ⟨hinv.capacity, hinv.ids, hinv.order, hwhole,
      fun j hj => (hinv.kept j hj).imp id (Or.imp id fun _ _ => rfl),
      (by rintro (hgone | hgone) <;> cases hgone), hans⟩
  | dropAll hleft => exact dropAll_inv hinv hleft
  | «end» hdropped =>
    have hwhole := hinv.whole
    have hans := hinv.answers
    rw [Line.unfinished, hdropped] at hans
    rw [hdropped] at hwhole
    exact ⟨hinv.capacity, hinv.ids, hinv.order, hwhole,
      fun j hj => (hinv.kept j hj).imp id (Or.imp id fun _ _ => rfl),
      fun _ => hinv.shut (.inl hdropped), hans⟩

/-! ### Jobs that are passed over

A job whose token is cancelled, or which has waited too long, stays so until the writer comes to
it. -/

/-- The fate of a job that was given up or expired before its write started: it waits to be
    passed over, or it left the queue unwritten, and then nobody is left waiting for it or the
    writer has left its loop. -/
structure Passed (Doomed : Job → Prop) (l : Line) (job : Job) : Prop where
  accepted : job ∈ l.accepted
  unstarted : job ∉ l.started
  fate : job ∈ l.queue.queue ∧ Doomed job ∨
    job ∉ l.queue.queue ∧ (job.reply = false → l.writer.gone = true)

theorem Passed.mono {Doomed' : Job → Prop} (h : Passed Doomed l job)
    (hle : Doomed job → Doomed' job) : Passed Doomed' l job :=
  ⟨h.accepted, h.unstarted, h.fate.imp (fun hq => ⟨hq.1, hle hq.2⟩) id⟩

/-- **No move writes a job that is to be passed over.** -/
theorem Move.passed (h : Move dropped Doomed l l') (hinv : l.Inv dropped)
    (hjob : Passed Doomed l job) : Passed Doomed l' job := by
  obtain ⟨haccepted, hunstarted, hfate⟩ := hjob
  cases h with
  | none => exact ⟨haccepted, hunstarted, hfate⟩
  -- another job is queued: its number is new
  | accept other queue hid hsend =>
    obtain ⟨-, -, rfl⟩ := Channel.trySend_eq_some.mp hsend
    refine ⟨List.mem_append_left _ haccepted, hunstarted, ?_⟩
    rcases hfate with ⟨hmem, hdoomed⟩ | ⟨hout, hgone⟩
    · exact .inl ⟨List.mem_append_left _ hmem, hdoomed⟩
    · refine .inr ⟨?_, hgone⟩
      rw [List.mem_append, not_or, List.mem_singleton]
      refine ⟨hout, ?_⟩
      rintro rfl
      have hmem : job.id ∈ l.accepted.map Job.id := List.mem_map_of_mem haccepted
      rw [hinv.ids, List.mem_range, ← hid] at hmem
      exact Nat.lt_irrefl _ hmem
  -- a job is passed over; a detached one makes the writer leave
  | skip other queue error hwaiting hrecv hdoomed =>
    obtain ⟨rest, hqueue, rfl⟩ := Channel.recv_eq_some.mp hrecv
    rw [hqueue] at hfate
    refine ⟨haccepted, hunstarted, ?_⟩
    show job ∈ rest ∧ Doomed job ∨ job ∉ rest ∧ (job.reply = false → Writer.gone _ = true)
    by_cases hrest : job ∈ rest
    · rcases hfate with ⟨-, hd⟩ | ⟨hout, -⟩
      · exact .inl ⟨hrest, hd⟩
      · exact absurd (List.mem_cons_of_mem _ hrest) hout
    · refine .inr ⟨hrest, ?_⟩
      intro hreply
      rcases hfate with ⟨hmem, -⟩ | ⟨-, hgone⟩
      · rcases List.mem_cons.mp hmem with rfl | hmem
        · rw [hreply]; rfl
        · exact absurd hmem hrest
      · have hgone := hgone hreply
        rw [hwaiting] at hgone
        cases hgone
  -- a job is started
  | begin other queue hwaiting hrecv hdoomed =>
    obtain ⟨rest, hqueue, rfl⟩ := Channel.recv_eq_some.mp hrecv
    rw [hqueue] at hfate
    -- The writer starts only what is not doomed, so this is another job.
    have hne : job ≠ other := by
      rintro rfl
      rcases hfate with ⟨-, hd⟩ | ⟨hout, -⟩
      · exact hdoomed hd
      · exact hout List.mem_cons_self
    refine ⟨haccepted, ?_, ?_⟩
    · show job ∉ l.started ++ [other]
      rw [List.mem_append, not_or, List.mem_singleton]
      exact ⟨hunstarted, hne⟩
    · rcases hfate with ⟨hmem, hd⟩ | ⟨hout, hgone⟩
      · exact .inl ⟨(List.mem_cons.mp hmem).resolve_left hne, hd⟩
      · refine .inr ⟨fun hmem => hout (List.mem_cons_of_mem _ hmem), fun hreply => ?_⟩
        have hgone := hgone hreply
        rw [hwaiting] at hgone
        cases hgone
  -- the writer is not gone while it writes
  | sent other writer hwriting hnext =>
    refine ⟨haccepted, hunstarted, hfate.imp id fun ⟨hout, hgone⟩ => ⟨hout, fun hreply => ?_⟩⟩
    have hgone := hgone hreply
    rw [hwriting] at hgone
    cases hgone
  | failed other error hwriting =>
    exact ⟨haccepted, hunstarted, hfate.imp id fun ⟨hout, _⟩ => ⟨hout, fun _ => rfl⟩⟩
  | leave hwaiting =>
    exact ⟨haccepted, hunstarted, hfate.imp id fun ⟨hout, _⟩ => ⟨hout, fun _ => rfl⟩⟩
  | dropAll hleft =>
    exact ⟨haccepted, hunstarted, .inr ⟨List.not_mem_nil, fun _ => rfl⟩⟩
  | «end» hdropped =>
    exact ⟨haccepted, hunstarted, hfate.imp id fun ⟨hout, _⟩ => ⟨hout, fun _ => rfl⟩⟩

/-- A writer that left its loop starts nothing and stays away. -/
theorem Move.gone (h : Move dropped Doomed l l') (hgone : l.writer.gone = true) :
    l'.writer.gone = true ∧ l'.started = l.started ∧ l'.written = l.written := by
  cases h with
  | none => exact ⟨hgone, rfl, rfl⟩
  | accept => exact ⟨hgone, rfl, rfl⟩
  | skip job queue error hwaiting => rw [hwaiting] at hgone; cases hgone
  | begin job queue hwaiting => rw [hwaiting] at hgone; cases hgone
  | sent job writer hwriting => rw [hwriting] at hgone; cases hgone
  | failed job error hwriting => rw [hwriting] at hgone; cases hgone
  | leave hwaiting => rw [hwaiting] at hgone; cases hgone
  | dropAll => exact ⟨rfl, rfl, rfl⟩
  | «end» => exact ⟨rfl, rfl, rfl⟩

end

end Hmux.Transport
