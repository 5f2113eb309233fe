import Hmux.Workflow.Calls

namespace Hmux.Workflow

open Lib

/-!
# Runs of the workflow store

Every hook and report reads the file, moves its workflow, prunes the state and writes it.  In every
run from no file the state stays valid, so that the check before the write never refuses it and the
next call can read what was written.

* `prune_ok`, `bytesLoop_ok` — the state is pruned and fits its file;
* `written_ok` — what a call leaves is written, and read back;
* `store_closed` — every run.
-/

section

variable {sha256 : List UInt8 → Vector UInt8 32} {calls : List Call} {clock now : Int64}
  {s s' : State} {m : BTreeMap String Item} {S : Serde}

/-! ### Pruning

Items that are old go, then the oldest ones until few enough are left. -/

/-- A part of a map of items. -/
theorem itemsOk_of_subset {m' : BTreeMap String Item} (h : ItemsOk sha256 calls clock m)
    (hsub : ∀ k item, m'.get? k = some item → m.get? k = some item) :
    ItemsOk sha256 calls clock m' := fun k item hitem => h k item (hsub k item hitem)

/-- The item that is dropped next is there under its own identifier. -/
theorem contains_of_mem {v : Item} (h : ItemsOk sha256 calls clock m) (hv : v ∈ m.values) :
    m.contains v.id = true := by
  obtain ⟨k, hk⟩ := BTreeMap.mem_values.mp hv
  exact BTreeMap.contains_iff.mpr ⟨v, (h k v hk).1.key ▸ hk⟩

theorem dropOldest_ok {fuel : ℕ} (h : ItemsOk sha256 calls clock m) (hfuel : m.length ≤ fuel) :
    ItemsOk sha256 calls clock (dropOldest fuel m) ∧ (dropOldest fuel m).length ≤ maxWorkflows := by
  induction fuel generalizing m with
  | zero =>
    refine ⟨h, ?_⟩
    rw [dropOldest]
    omega
  | succ fuel ih =>
    rw [dropOldest]
    split
    · rename_i hmany
      split
      · rename_i hnone
        have hempty := List.argmin_eq_none.mp hnone
        have hlen : m.values.length = m.length := List.length_map _
        rw [hempty, List.length_nil] at hlen
        omega
      · rename_i v hv
        have hlt := BTreeMap.length_erase_lt (contains_of_mem h (List.argmin_mem hv))
        exact ih (itemsOk_of_subset h fun k item hitem => (BTreeMap.get?_erase.mp hitem).1)
          (by omega)
    · rename_i hfew
      exact ⟨h, not_lt.mp hfew⟩

/-- **Pruning** keeps the items and leaves no more than there may be. -/
theorem prune_ok (h : ItemsOk sha256 calls clock s.workflows) (now : Int64) :
    ItemsOk sha256 calls clock (s.prune now).workflows ∧
      (s.prune now).workflows.length ≤ maxWorkflows := by
  have hstale : ItemsOk sha256 calls clock (s.workflows.mapValues (Item.stale now)) :=
    itemsOk_mapValues h fun _ item hok => ⟨stale_ok hok, stale_keeps item now⟩
  exact dropOldest_ok
    (itemsOk_of_subset hstale fun _ _ hitem => (BTreeMap.get?_retain.mp hitem).1) (Nat.le_refl _)

/-! ### The file

When the text is too long, items go one by one until it fits; the empty state fits, so this ends.
-/

theorem valid_of_items (hversion : s.version = 1) (hsize : s.workflows.length ≤ maxWorkflows)
    (h : ItemsOk sha256 calls clock s.workflows) : s.valid = true := by
  have hitems : (s.workflows.entries.all fun e => e.2.valid e.1) = true := by
    rw [List.all_eq_true]
    intro e he
    exact (h e.1 e.2 (BTreeMap.mem_entries.mp he)).1.valid
  unfold State.valid
  rw [decide_eq_true hversion, decide_eq_true hsize, hitems]
  rfl

/-- A state without items fits its file. -/
theorem length_text_empty (hversion : s.version = 1) (hempty : s.workflows.values = [])
    (hshort : (bytes s.updatedAt).length ≤ 132) : (s.text S).length ≤ maxBytes := by
  obtain ⟨version, ⟨entries, hsorted⟩, updatedAt⟩ := s
  obtain rfl : version = 1 := hversion
  obtain rfl : entries = [] := List.map_eq_nil_iff.mp hempty
  have hquote := Json.length_quote_le updatedAt
  have hshort' : (bytes updatedAt).length ≤ 132 := hshort
  have htext : State.text S ⟨1, ⟨[], hsorted⟩, updatedAt⟩ =
      bytes "\x7b\"version\":1,\"workflows\":\x7b\x7d,\"updated_at\":" ++ Json.quote updatedAt ++
        bytes "\x7d\n" := by
    show Json.text S.format (.obj [("version", .int 1), ("workflows", .obj []),
      ("updated_at", .str updatedAt)]) ++ [10] = _
    simp only [Json.text, Json.textFields, Json.textMoreFields, List.append_assoc, List.cons_append,
      List.nil_append, List.append_nil]
    rfl
  have hmax : maxBytes = 16777216 := rfl
  have hfront : (bytes "\x7b\"version\":1,\"workflows\":\x7b\x7d,\"updated_at\":").length = 41 :=
    rfl
  have hback : (bytes "\x7d\n").length = 2 := rfl
  rw [htext, List.length_append, List.length_append, hfront, hback, hmax]
  omega

/-- **The file of a state**: some items may have to go, and then it fits. -/
theorem bytesLoop_ok {fuel : ℕ} (hversion : s.version = 1)
    (hshort : (bytes s.updatedAt).length ≤ 132) (h : ItemsOk sha256 calls clock s.workflows)
    (hfuel : s.workflows.length ≤ fuel) :
    ∃ s', s.bytesLoop S fuel = .ok (s'.text S, s') ∧ s'.version = 1 ∧
      ItemsOk sha256 calls clock s'.workflows ∧ s'.workflows.length ≤ s.workflows.length ∧
      (s'.text S).length ≤ maxBytes := by
  induction fuel generalizing s with
  | zero =>
    have hempty : s.workflows.values = [] := by
      apply List.length_eq_zero_iff.mp
      have hlen : s.workflows.values.length = s.workflows.length := List.length_map _
      omega
    have hfits := length_text_empty (S := S) hversion hempty hshort
    refine ⟨s, ?_, hversion, h, Nat.le_refl _, hfits⟩
    rw [State.bytesLoop, if_pos hfits]
  | succ fuel ih =>
    rw [State.bytesLoop]
    split
    · rename_i hfits
      exact ⟨s, rfl, hversion, h, Nat.le_refl _, hfits⟩
    · rename_i hlarge
      split
      · rename_i hnone
        exact absurd (length_text_empty hversion (List.argmin_eq_none.mp hnone) hshort) hlarge
      · rename_i v hv
        have hlt := BTreeMap.length_erase_lt (contains_of_mem h (List.argmin_mem hv))
        obtain ⟨s', hok, hversion', hitems, hlen, hfits⟩ :=
          ih (s := { s with workflows := s.workflows.erase v.id }) hversion hshort
            (itemsOk_of_subset h fun k item hitem => (BTreeMap.get?_erase.mp hitem).1)
            (by dsimp only; omega)
        exact ⟨s', hok, hversion', hitems, by dsimp only at hlen; omega, hfits⟩

/-- `serde_json` reads a state with the newline after it as it was written. -/
def ReadsFiles (S : Serde) : Prop := ∀ s :
    State, S.fromSlice (s.text S) = some (State.codec.write s)

theorem read_text (hserde : ReadsFiles S) (hvalid : s.valid = true)
    (hfits : (s.text S).length ≤ maxBytes) : read S (s.text S) = .ok s := by
  have hcodec : State.codec.read (State.codec.write s) = some s := State.codec_reads s
  unfold read
  rw [decide_eq_true hfits, ok_bind (require_ok.mpr rfl), hserde s, Option.bind_some, hcodec,
    ok_bind (okOr_ok.mpr rfl), hvalid, ok_bind (require_ok.mpr rfl)]
  rfl

/-- The text of a clock is short. -/
theorem length_stamp (t : Civil.Instant) : (bytes t.autoSi).length ≤ 132 := by
  have hchars := t.length_autoSi
  have hbytes := length_bytes_le t.autoSi
  omega

/-- The state that is written after an action. -/
def State.stamped (s : State) (now : Civil.Instant) : State :=
  { s.prune now.timestamp with updatedAt := now.autoSi }

/-- **What an action leaves is written**: it is valid and it is read back. -/
theorem written_ok (hserde : ReadsFiles S) {t : Civil.Instant} (hversion : s.version = 1)
    (h : ItemsOk sha256 calls clock s.workflows) :
    ∃ s', (s.stamped t).bytes S = .ok (s'.text S, s') ∧ s'.valid = true ∧
      s.written S t = .ok (s'.text S) ∧ read S (s'.text S) = .ok s' ∧ s'.version = 1 ∧
      ItemsOk sha256 calls clock s'.workflows := by
  obtain ⟨hitems, hsize⟩ := prune_ok h t.timestamp
  obtain ⟨s', hbytes, hversion', hitems', hlen, hfits⟩ :=
    bytesLoop_ok (s := s.stamped t) (S := S) hversion (length_stamp t) hitems (Nat.le_refl _)
  have hvalid : s'.valid = true := valid_of_items hversion' (hlen.trans hsize) hitems'
  refine ⟨s', hbytes, hvalid, ?_, read_text hserde hvalid hfits, hversion', hitems'⟩
  unfold State.written
  have hbind := ok_bind (f := fun p : List UInt8 × State =>
    require p.2.valid Error.invalid >>= fun _ => .ok p.1) hbytes
  refine hbind.trans ?_
  rw [hvalid, ok_bind (require_ok.mpr rfl)]

/-! ### Runs

By induction on the calls, with a clock that may stand still but does not go back. -/

/-- A call at a time, and how its write ends. -/
structure Step where
  call : Call
  now : Civil.Instant
  outcome : WriteOutcome

/-- `Store::record_hook` and `Store::record_report`, up to the write. -/
def Step.record (S : Serde) (sha256 : List UInt8 → Vector UInt8 32) (file : Option (List UInt8))
    (step : Step) : Except Error (List UInt8) := do
  require step.call.valid Error.invalid
  update S file step.now (step.call.action sha256)

/-- The file after a call. -/
def Step.next (S : Serde) (sha256 : List UInt8 → Vector UInt8 32) (file : Option (List UInt8))
    (step : Step) : Option (List UInt8) :=
  match step.record S sha256 file with
  | .ok raw => (step.outcome.write file raw).2
  | .error _ => file

/-- The file after these calls. -/
def run (S : Serde) (sha256 : List UInt8 → Vector UInt8 32) (steps : List Step) :
    Option (List UInt8) :=
  steps.foldl (Step.next S sha256) none

/-- A file that can be read, with what every item keeps. -/
def FileOk (S : Serde) (sha256 : List UInt8 → Vector UInt8 32) (calls : List Call) (clock : Int64)
    (file : Option (List UInt8)) : Prop :=
  ∃ s, load S file = .ok s ∧ s.version = 1 ∧ ItemsOk sha256 calls clock s.workflows

theorem fileOk_none : FileOk S sha256 calls clock none := ⟨_, rfl, rfl, itemsOk_empty⟩

theorem ItemsOk.mono (h : ItemsOk sha256 calls clock m) (hclock : clock ≤ now) :
    ItemsOk sha256 calls now m :=
  fun k item hitem => ⟨(h k item hitem).1.mono hclock, (h k item hitem).2⟩

/-- An action that succeeds leaves every item as the store keeps it. -/
theorem action_ok {call : Call} (hvalid : ∀ c ∈ calls, c.valid = true)
    (hsha : NoCollision sha256 calls) (hmem : call ∈ calls) (hclock : clock ≤ now) (hnow : 0 < now)
    (hitems : ItemsOk sha256 calls clock s.workflows)
    (h : call.action sha256 s now = .ok s') :
    ItemsOk sha256 calls now s'.workflows ∧ s'.version = s.version := by
  cases call with
  | hook binding event => exact recordHook_ok hvalid hsha hmem hclock hnow hitems h
  | report binding r => exact recordReport_ok hvalid hsha hmem hnow (hitems.mono hclock) h

theorem action_error {call : Call} {e : Error} (hvalid : ∀ c ∈ calls, c.valid = true)
    (hsha : NoCollision sha256 calls) (hmem : call ∈ calls) (hclock : clock ≤ now) (hnow : 0 < now)
    (hitems : ItemsOk sha256 calls clock s.workflows)
    (h : call.action sha256 s now = .error e) :
    call.BoundElsewhere sha256 s ∨ call.FullOf sha256 s := by
  cases call with
  | hook binding event => exact recordHook_error hvalid hsha hmem hclock hnow hitems h
  | report binding r => exact .inr (recordReport_error hvalid hsha hmem hnow (hitems.mono hclock) h)

/-- **One step**: a file that can be read is one after every call. -/
theorem next_ok {step : Step} {file : Option (List UInt8)} (hserde : ReadsFiles S)
    (hvalid : ∀ c ∈ calls, c.valid = true) (hsha : NoCollision sha256 calls)
    (hmem : step.call ∈ calls) (hclock : clock ≤ step.now.timestamp)
    (hnow : 1 ≤ step.now.timestamp) (h : FileOk S sha256 calls clock file) :
    FileOk S sha256 calls step.now.timestamp (step.next S sha256 file) := by
  obtain ⟨s, hload, hversion, hitems⟩ := h
  have hsame : FileOk S sha256 calls step.now.timestamp file :=
    ⟨s, hload, hversion, hitems.mono hclock⟩
  unfold Step.next
  cases hrecord : step.record S sha256 file with
  | error e => exact hsame
  | ok raw =>
    unfold Step.record update at hrecord
    obtain ⟨⟨⟩, -, hrecord⟩ := bind_ok hrecord
    obtain ⟨⟨⟩, -, hrecord⟩ := bind_ok hrecord
    rw [ok_bind hload] at hrecord
    obtain ⟨s₁, haction, hrecord⟩ := bind_ok hrecord
    have hpos : (0 : Int64) < step.now.timestamp := Int64.lt_of_lt_of_le (by decide) hnow
    obtain ⟨hitems₁, hversion₁⟩ := action_ok hvalid hsha hmem hclock hpos hitems haction
    obtain ⟨s₂, -, -, hwritten, hread, hversion₂, hitems₂⟩ :=
      written_ok hserde (t := step.now) (hversion₁.trans hversion) hitems₁
    obtain rfl := Except.ok.inj (hwritten.symm.trans hrecord)
    have hnew : FileOk S sha256 calls step.now.timestamp (some (s₂.text S)) :=
      ⟨s₂, hread, hversion₂, hitems₂⟩
    cases step.outcome with
    | done => exact hnew
    | beforeCommit => exact hsame
    | afterCommit => exact hnew

/-- The clock after these calls. -/
def lastClock (clock : Int64) (steps : List Step) : Int64 :=
  steps.foldl (fun _ step => step.now.timestamp) clock

/-- **Every run** leaves a file that can be read. -/
theorem run_ok {steps : List Step} {file : Option (List UInt8)} (hserde : ReadsFiles S)
    (hvalid : ∀ c ∈ calls, c.valid = true) (hsha : NoCollision sha256 calls)
    (hmem : ∀ step ∈ steps, step.call ∈ calls)
    (hclock : ∀ step ∈ steps, clock ≤ step.now.timestamp)
    (hpos : ∀ step ∈ steps, 1 ≤ step.now.timestamp)
    (htimes : steps.Pairwise fun a b => a.now.timestamp ≤ b.now.timestamp)
    (h : FileOk S sha256 calls clock file) :
    FileOk S sha256 calls (lastClock clock steps) (steps.foldl (Step.next S sha256) file) := by
  induction steps generalizing clock file with
  | nil => exact h
  | cons step steps ih =>
    obtain ⟨hlater, htimes⟩ := List.pairwise_cons.mp htimes
    have hnext := next_ok hserde hvalid hsha (hmem step List.mem_cons_self)
      (hclock step List.mem_cons_self) (hpos step List.mem_cons_self) h
    exact ih (fun a ha => hmem a (List.mem_cons_of_mem _ ha)) hlater
      (fun a ha => hpos a (List.mem_cons_of_mem _ ha)) htimes hnext

theorem lastClock_le {steps : List Step} {bound : Int64} (hclock : clock ≤ bound)
    (h : ∀ step ∈ steps, step.now.timestamp ≤ bound) : lastClock clock steps ≤ bound := by
  induction steps generalizing clock with
  | nil => exact hclock
  | cons step steps ih =>
    exact ih (h step List.mem_cons_self) fun a ha => h a (List.mem_cons_of_mem _ ha)

/-- **The store is closed under its calls.**  After any run from no file, the file can be read; a
    call whose action succeeds leaves a state that is valid, is written, and is read back from the
    written bytes; and an action fails only when the turn is bound to another tmux session or when
    the workflow has 128 nodes of which none may go. -/
theorem store_closed (hserde : ReadsFiles S) (steps : List Step) (step : Step)
    (hvalid : ∀ a ∈ steps ++ [step], a.call.valid = true)
    (hpos : ∀ a ∈ steps ++ [step], 1 ≤ a.now.timestamp)
    (htimes : (steps ++ [step]).Pairwise fun a b => a.now.timestamp ≤ b.now.timestamp)
    (hsha : NoCollision sha256 ((steps ++ [step]).map Step.call)) :
    ∃ s, load S (run S sha256 steps) = .ok s ∧
      (∀ s₁, step.call.action sha256 s step.now.timestamp = .ok s₁ →
        ∃ s₂, (s₁.stamped step.now).bytes S = .ok (s₂.text S, s₂) ∧ s₂.valid = true ∧
          step.record S sha256 (run S sha256 steps) = .ok (s₂.text S) ∧
          read S (s₂.text S) = .ok s₂) ∧
      ∀ e, step.call.action sha256 s step.now.timestamp = .error e →
        step.call.BoundElsewhere sha256 s ∨ step.call.FullOf sha256 s := by
  have hlast : step ∈ steps ++ [step] := List.mem_append_right _ List.mem_cons_self
  have hcalls : ∀ c ∈ (steps ++ [step]).map Step.call, c.valid = true := by
    intro c hc
    obtain ⟨a, ha, rfl⟩ := List.mem_map.mp hc
    exact hvalid a ha
  have hmem : ∀ a ∈ steps ++ [step], a.call ∈ (steps ++ [step]).map Step.call :=
    fun a ha => List.mem_map_of_mem ha
  obtain ⟨hbefore, -, hlater⟩ := List.pairwise_append.mp htimes
  -- before the last step, the file is what the steps before it have left
  have hfile : FileOk S sha256 ((steps ++ [step]).map Step.call) (lastClock 1 steps)
      (run S sha256 steps) :=
    run_ok hserde hcalls hsha (fun a ha => hmem a (List.mem_append_left _ ha))
      (fun a ha => hpos a (List.mem_append_left _ ha))
      (fun a ha => hpos a (List.mem_append_left _ ha)) hbefore fileOk_none
  obtain ⟨s, hload, hversion, hitems⟩ := hfile
  -- whose clock is not ahead of the last step
  have hclock : lastClock 1 steps ≤ step.now.timestamp :=
    lastClock_le (hpos step hlast) fun a ha => hlater a ha step List.mem_cons_self
  have hnow : (0 : Int64) < step.now.timestamp := Int64.lt_of_lt_of_le (by decide) (hpos step hlast)
  refine ⟨s, hload, fun s₁ haction => ?_, fun e haction => ?_⟩
  · obtain ⟨hitems₁, hversion₁⟩ := action_ok hcalls hsha (hmem step hlast) hclock hnow
      hitems haction
    -- the text that was written is read back as the state that was built
    obtain ⟨s₂, hbytes, hok, hwritten, hread, -⟩ :=
      written_ok hserde (t := step.now) (hversion₁.trans hversion) hitems₁
    refine ⟨s₂, hbytes, hok, ?_, hread⟩
    unfold Step.record update
    rw [hvalid step hlast, ok_bind (require_ok.mpr rfl), decide_eq_true (hpos step hlast),
      ok_bind (require_ok.mpr rfl), ok_bind hload, ok_bind haction, hwritten]
  · exact action_error hcalls hsha (hmem step hlast) hclock hnow hitems haction

end

/-! ### A prompt, a task and a helper

A prompt, a task of the session and a helper of the agent, one after the other. -/

namespace HelperExample

/-- SHA-256 on the identifiers of the example. -/
def sha256 (text : List UInt8) : Vector UInt8 32 :=
  if text = bytes (hashInput "wf-" (pairText "s1" "t1")) then
    #v[117, 25, 205, 236, 107, 152, 16, 101, 174, 65, 54, 109, 116, 153, 88, 141, 112, 117, 59, 67,
      104, 221, 105, 94, 189, 60, 112, 91, 188, 86, 15, 115]
  else if text = bytes (hashInput "cx-" "s1") then
    #v[208, 253, 241, 198, 132, 218, 173, 181, 102, 45, 228, 156, 145, 172, 198, 155, 110, 33, 131,
      152, 116, 47, 157, 211, 11, 17, 93, 92, 146, 50, 104, 203]
  else if text = bytes (hashInput "turn-" "t1") then
    #v[187, 113, 180, 143, 126, 66, 193, 233, 242, 27, 79, 162, 253, 2, 88, 224, 52, 163, 201, 173,
      187, 234, 172, 244, 57, 10, 73, 144, 127, 138, 16, 131]
  else if text = bytes (hashInput "root-" "s1") then
    #v[158, 171, 97, 202, 198, 219, 252, 110, 41, 15, 13, 162, 171, 177, 0, 26, 237, 145, 133, 102,
      175, 106, 0, 58, 219, 91, 141, 233, 249, 224, 113, 252]
  else if text = bytes (hashInput "agent-" "a1") then
    #v[198, 181, 35, 146, 246, 107, 41, 106, 73, 161, 43, 212, 96, 255, 247, 198, 44, 84, 211, 174,
      165, 234, 34, 170, 220, 43, 245, 221, 96, 180, 68, 169]
  else if text = bytes (hashInput "orch-" (pairText "$1" "1700000000")) then
    #v[129, 143, 23, 209, 52, 207, 242, 30, 107, 149, 44, 207, 170, 237, 2, 11, 214, 90, 22, 46,
      207, 158, 251, 159, 131, 127, 41, 16, 165, 17, 99, 41]
  else
    -- the task `k1`
    #v[52, 212, 253, 133, 112, 44, 187, 138, 145, 71, 8, 210, 21, 188, 59, 200, 87, 190, 58, 31,
      142, 67, 210, 112, 85, 83, 146, 11, 102, 222, 82, 155]

/-- A state has no doubles. -/
theorem compact_reads : ReadsFiles Json.Compact.serde := by
  intro s
  apply Json.Compact.serde_fromSlice_line
  have hnode : ∀ n : Node, Json.Compact.plain (Node.codec.write n) = true := by
    intro n
    apply Json.Compact.plain_object
    simp [Node.fields]
  have hitem : ∀ i : Item, Json.Compact.plain (Item.codec.write i) = true := by
    intro i
    have hnodes : Json.Compact.plain (Node.codec.btreeMap.write i.nodes) = true :=
      Json.Compact.plainFields_map fun e _ => hnode e.2
    apply Json.Compact.plain_object
    simp [Item.fields, Json.Compact.plainPut_defaulted hnodes]
  have hitems : Json.Compact.plain (Item.codec.btreeMap.write s.workflows) = true :=
    Json.Compact.plainFields_map fun e _ => hitem e.2
  show Json.Compact.plainFields [("version", .int s.version.toInt),
    ("workflows", Item.codec.btreeMap.write s.workflows), ("updated_at", .str s.updatedAt)] = true
  simp only [Json.Compact.plainFields, Json.Compact.plain, hitems, Bool.and_self]

def binding : SessionIdentity := ⟨"$1", 1700000000⟩

/-- An event of the turn `t1` of the agent `s1`. -/
def event (name : String) : HookEvent := ⟨"s1", "t1", name, "gpt", "a1", "explorer", ""⟩

/-- So many nanoseconds after the start of 2026. -/
def instant (nanos : Fin 1000000000000000000) : Civil.Instant :=
  ⟨1767225600000000000 + nanos.val, by omega, by omega⟩

def steps : List Step :=
  [⟨.hook binding (event "UserPromptSubmit"), instant 0, .done⟩,
    ⟨.report binding ⟨"k1", "running"⟩, instant 1000000000, .done⟩]

def step : Step := ⟨.hook binding (event "SubagentStart"), instant 2500000000, .done⟩

/-- The helper is written beside the prompt and the task, and all of it is read back. -/
theorem helper_recorded : ∃ s s₂,
    load Json.Compact.serde (run Json.Compact.serde sha256 steps) = .ok s ∧ s.workflows.length = 2 ∧
      step.record Json.Compact.serde sha256 (run Json.Compact.serde sha256 steps)
        = .ok (s₂.text Json.Compact.serde) ∧
      s₂.valid = true ∧ read Json.Compact.serde (s₂.text Json.Compact.serde) = .ok s₂ := by
  have hsha : NoCollision sha256 ((steps ++ [step]).map Step.call) := by
    unfold NoCollision
    decide
  obtain ⟨s, hload, hok, -⟩ := store_closed compact_reads steps step (by decide)
    (by decide +kernel) (by decide +kernel) hsha
  have hcheck : ((load Json.Compact.serde (run Json.Compact.serde sha256 steps)).bind fun s =>
      (step.call.action sha256 s step.now.timestamp).map fun _ => s.workflows.length) = .ok 2 := by
    decide +kernel
  rw [hload] at hcheck
  cases haction : step.call.action sha256 s step.now.timestamp with
  | error e =>
    simp only [Except.bind, haction] at hcheck
    cases hcheck
  | ok s₁ =>
    simp only [Except.bind, haction] at hcheck
    obtain ⟨s₂, -, hvalid, hrecord, hread⟩ := hok s₁ haction
    exact ⟨s, s₂, hload, Except.ok.inj hcheck, hrecord, hvalid, hread⟩

end HelperExample

end Hmux.Workflow
