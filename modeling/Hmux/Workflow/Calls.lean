import Hmux.Lib.Json.Reader
import Hmux.Workflow.Items

namespace Hmux.Workflow

open Lib

/-!
# Hooks and reports

One call finds the workflow of its turn, or starts it, and moves its nodes.  Workflows are found by
truncated digests, so that what is known of one that was found rests on the digests of the calls
being different (`NoCollision`).

* `found_hook`, `found_report` — the item with the identifier of a call is the item of that call;
* `recordHook_ok`, `recordReport_ok` — a call that succeeds leaves every item as the store keeps it;
* `recordHook_error`, `recordReport_error` — why a call fails.
-/

/-! ### Identifiers

Half of a digest is kept, with a prefix that tells what it is a digest of. -/

section

variable {sha256 : List UInt8 → Vector UInt8 32} {kind kind' value value' : String}

/-- The bytes of a digest that are kept. -/
def digest (sha256 : List UInt8 → Vector UInt8 32) (text : String) : List UInt8 :=
  (sha256 (bytes text)).toList.take 16

/-- Sixteen bytes of a digest are kept. -/
theorem length_digest (text : String) : (digest sha256 text).length = 16 := by
  unfold digest
  rw [List.length_take, Vector.length_toList]
  rfl

/-- A hash is its prefix and the digits of its digest. -/
theorem toList_hash : (hash sha256 kind value).toList
    = kind.toList ++ hexOf (digest sha256 (hashInput kind value)) := by
  unfold hash
  rw [String.toList_append, String.toList_ofList]
  rfl

/-- Every digit is a byte that `hashed` accepts. -/
theorem isLowerHex_hexOf {l : List UInt8} {c : Char} (h : c ∈ hexOf l) :
    c.utf8Size = 1 ∧ isLowerHex c.val.toUInt8 = true := by
  obtain ⟨d, hd, rfl⟩ := mem_hexOf h
  have hall : ∀ d : Fin 16, (Nat.digitChar d).utf8Size = 1 ∧
      isLowerHex (Nat.digitChar d).val.toUInt8 = true := by decide
  exact hall ⟨d, hd⟩

/-- **A hash is accepted** under its own prefix. -/
theorem hashed_hash {prefixes : List String} (h : kind ∈ prefixes) :
    hashed (hash sha256 kind value) prefixes = true := by
  have hbytes : bytes (hash sha256 kind value) = bytes kind ++
      (hexOf (digest sha256 (hashInput kind value))).map fun c => c.val.toUInt8 := by
    show bytes (kind ++ String.ofList (hexOf (digest sha256 (hashInput kind value)))) = _
    rw [bytes_append, bytes_ofList fun c hc => (isLowerHex_hexOf hc).1]
  unfold hashed
  rw [List.any_eq_true]
  refine ⟨kind, h, ?_⟩
  rw [hbytes, List.drop_left, List.length_map, length_hexOf, length_digest,
    Bool.and_eq_true, Bool.and_eq_true]
  refine ⟨⟨List.isPrefixOf_iff_prefix.mpr (List.prefix_append _ _), rfl⟩, ?_⟩
  rw [List.all_map, List.all_eq_true]
  exact fun c hc => (isLowerHex_hexOf hc).2

/-- Hashes of two kinds that start with different letters. -/
theorem hash_ne_hash {c d : Char} {s s' : List Char} (hkind : kind.toList = c :: s)
    (hkind' : kind'.toList = d :: s') (hne : c ≠ d) :
    hash sha256 kind value ≠ hash sha256 kind' value' := by
  intro h
  have hlist := congrArg String.toList h
  rw [toList_hash, toList_hash, hkind, hkind', List.cons_append, List.cons_append] at hlist
  exact hne (List.cons.inj hlist).1

/-- The same hash is the same digest. -/
theorem digest_of_hash (h : hash sha256 kind value = hash sha256 kind value') :
    digest sha256 (hashInput kind value) = digest sha256 (hashInput kind value') := by
  have hlist := congrArg String.toList h
  rw [toList_hash, toList_hash] at hlist
  exact hexOf_inj (List.append_cancel_left hlist)

/-- A pair without separators in its parts has its own text. -/
theorem pairText_inj {a a' b b' : String} (ha : '\x00' ∉ a.toList) (ha' : '\x00' ∉ a'.toList)
    (h : pairText a b = pairText a' b') : a = a' ∧ b = b' := by
  have hlist := congrArg String.toList h
  unfold pairText at hlist
  rw [String.toList_append, String.toList_append, String.toList_append, String.toList_append,
    List.append_assoc, List.append_assoc] at hlist
  obtain ⟨hfirst, hsecond⟩ := append_cons_inj ha ha' hlist
  exact ⟨String.toList_inj.mp hfirst, String.toList_inj.mp hsecond⟩

/-- A value of one kind has its own text. -/
theorem hashInput_inj (h : hashInput kind value = hashInput kind value') : value = value' := by
  have hsplit : ∀ v, (hashInput kind v).toList = (kind ++ "\x00").toList ++ v.toList :=
    fun v => String.toList_append
  have hlist := congrArg String.toList h
  rw [hsplit, hsplit] at hlist
  exact String.toList_inj.mp (List.append_cancel_left hlist)

/-- A checked identifier has no separator in it. -/
theorem not_mem_of_isOpaque {s : String} {max : ℕ} (h : isOpaque s max = true) :
    '\x00' ∉ s.toList := by
  intro hmem
  unfold isOpaque at h
  rw [Bool.and_eq_true] at h
  have hclean := isControlOrBidi_safeText (of_decide_eq_true h.2) '\x00' hmem
  cases hclean

end

/-! ### Calls

A call is checked before anything is read, and its text names one workflow. -/

/-- A hook or a report, with the session it is bound to. -/
inductive Call
  | hook (binding : SessionIdentity) (event : HookEvent)
  | report (binding : SessionIdentity) (report : Report)
  deriving DecidableEq

namespace Call

/-- The checks of `Store::record_hook` and `Store::record_report`. -/
def valid : Call → Bool
  | hook binding event => bindingValid binding && event.validate
  | report binding r => bindingValid binding && isOpaque r.taskId 256 &&
      ["running", "completed", "failed", "interrupted"].contains r.status

variable (sha256 : List UInt8 → Vector UInt8 32)

/-- What the call does to the state. -/
def action : Call → State → Int64 → Except Error State
  | hook binding event => fun s now => recordHook sha256 s binding event now
  | report binding r => fun s now => recordReport sha256 s binding r now

/-- The text whose digest names the workflow of a call. -/
def text : Call → String
  | hook _ event => hashInput "wf-" (pairText event.sessionId event.turnId)
  | report binding _ => hashInput "orch-" (pairText binding.id (toString binding.createdAt))

/-- The workflow of a call. -/
def workflowId : Call → String
  | hook _ event => event.workflowId sha256
  | report binding _ => orchestraId sha256 binding

/-- The turn of a hook is bound to another tmux session. -/
def BoundElsewhere (s : State) : Call → Prop
  | hook binding event => ∃ item, s.workflows.get? (event.workflowId sha256) = some item ∧
      item.sessionId = hash sha256 "cx-" event.sessionId ∧
      item.turnId = hash sha256 "turn-" event.turnId ∧ item.isBound binding = false
  | report _ _ => False

/-- The workflow of a call has 128 nodes, none of which has ended without children and is no
    root. -/
def FullOf (s : State) (call : Call) : Prop :=
  ∃ item, s.workflows.get? (call.workflowId sha256) = some item ∧ Full item.nodes

end Call

/-- No two of these calls have different texts with the same digest. -/
def NoCollision (sha256 : List UInt8 → Vector UInt8 32) (calls : List Call) : Prop :=
  ∀ a ∈ calls, ∀ b ∈ calls, digest sha256 a.text = digest sha256 b.text → a.text = b.text

/-- An item is that of one of these calls. -/
inductive Item.Came (sha256 : List UInt8 → Vector UInt8 32) (calls : List Call) (item : Item) : Prop
  | hook (binding : SessionIdentity) (event : HookEvent) (mem : .hook binding event ∈ calls)
      (id : item.id = event.workflowId sha256) (source : item.source = "codex-hook")
      (sessionId : item.sessionId = hash sha256 "cx-" event.sessionId)
      (turnId : item.turnId = hash sha256 "turn-" event.turnId)
      (root : ∃ n, item.nodes.get? (event.rootId sha256) = some n ∧ n.nodeType = "root")
  | report (binding : SessionIdentity) (r : Report) (mem : .report binding r ∈ calls)
      (id : item.id = orchestraId sha256 binding) (source : item.source = "codex-orchestra")
      (bound : item.isBound binding = true)

section

variable {sha256 : List UInt8 → Vector UInt8 32} {calls : List Call} {clock now : Int64}
  {binding : SessionIdentity} {event : HookEvent} {s s' : State} {item item' : Item} {key : String}

/-- A workflow stays bound to its session. -/
theorem Item.Keeps.isBound (h : item.Keeps item') :
    item'.isBound binding = item.isBound binding := by
  unfold Item.isBound
  rw [h.tmuxSessionId, h.tmuxCreatedAt]

/-- It still comes from the calls it came from. -/
theorem Item.Keeps.came (h : item.Keeps item') (hcame : item.Came sha256 calls) :
    item'.Came sha256 calls := by
  cases hcame with
  | hook binding event mem id source sessionId turnId root =>
    obtain ⟨n, hn, hroot⟩ := root
    exact .hook binding event mem (h.id.trans id) (h.source.trans source)
      (h.sessionId.trans sessionId) (h.turnId.trans turnId) (h.roots _ n hn hroot)
  | report binding r mem id source bound =>
    exact .report binding r mem (h.id.trans id) (h.source.trans source) (h.isBound.trans bound)

/-- Every item is as the store keeps it and comes from a call. -/
def ItemsOk (sha256 : List UInt8 → Vector UInt8 32) (calls : List Call) (clock : Int64)
    (workflows : BTreeMap String Item) : Prop :=
  ∀ k item, workflows.get? k = some item → item.Ok clock k ∧ item.Came sha256 calls

/-- A new file has no workflows. -/
theorem itemsOk_empty : ItemsOk sha256 calls clock .empty := by
  intro k item h
  cases h

/-- All workflows may be changed if each stays as it should be. -/
theorem itemsOk_mapValues {workflows : BTreeMap String Item}
    (h : ItemsOk sha256 calls clock workflows)
    {f : Item → Item} (hf : ∀ k item, item.Ok clock k → (f item).Ok now k ∧ item.Keeps (f item)) :
    ItemsOk sha256 calls now (workflows.mapValues f) := by
  intro k item hitem
  rw [BTreeMap.get?_mapValues, Option.map_eq_some_iff] at hitem
  obtain ⟨x, hx, rfl⟩ := hitem
  obtain ⟨hok, hcame⟩ := h k x hx
  obtain ⟨hok', hkeeps⟩ := hf k x hok
  exact ⟨hok', hkeeps.came hcame⟩

/-- Some items are interrupted, the others stay. -/
theorem itemsOk_interrupt {workflows : BTreeMap String Item}
    (h : ItemsOk sha256 calls clock workflows)
    (hclock : clock ≤ now) (p : Item → Bool) :
    ItemsOk sha256 calls now
      (workflows.mapValues fun item => if p item then item.interrupt now else item) := by
  refine itemsOk_mapValues h fun k item hok => ?_
  split
  · exact ⟨interrupt_ok hok hclock, interrupt_keeps item now⟩
  · exact ⟨hok.mono hclock, .refl item⟩

/-- A workflow may be entered or replaced. -/
theorem itemsOk_insert {workflows : BTreeMap String Item} (h : ItemsOk sha256 calls now workflows)
    (hitem : item.Ok now key) (hcame : item.Came sha256 calls) :
    ItemsOk sha256 calls now (workflows.insert key item) := by
  intro k x hx
  rw [BTreeMap.get?_insert] at hx
  split at hx
  · rename_i heq
    rw [heq, ← Option.some.inj hx]
    exact ⟨hitem, hcame⟩
  · exact h k x hx

end

/-! ### Hooks

What an event does to the nodes of its workflow, by its name. -/

section

variable {sha256 : List UInt8 → Vector UInt8 32} {calls : List Call} {clock now : Int64}
  {binding : SessionIdentity} {event : HookEvent} {s s' : State} {item item' : Item} {key : String}

/-- A valid hook has an opaque session id. -/
theorem isOpaque_of_valid (h : (Call.hook binding event).valid = true) :
    isOpaque event.sessionId 512 = true := by
  unfold Call.valid HookEvent.validate at h
  simp only [Bool.and_eq_true] at h
  exact h.2.1.1.1.1.1.1

/-- A valid hook has one of eight names. -/
theorem name_of_valid (h : (Call.hook binding event).valid = true) :
    event.hookEventName ∈ ["UserPromptSubmit", "SubagentStart", "SubagentStop", "PermissionRequest",
      "PreToolUse", "PostToolUse", "Stop", "SessionEnd"] := by
  unfold Call.valid HookEvent.validate at h
  simp only [Bool.and_eq_true] at h
  exact List.contains_iff_mem.mp h.2.1.2

/-- A valid hook has a valid binding. -/
theorem bindingValid_of_valid (h : (Call.hook binding event).valid = true) :
    bindingValid binding = true := by
  unfold Call.valid at h
  rw [Bool.and_eq_true] at h
  exact h.1

/-- **The workflow of a turn.**  The item that has the identifier of a turn is that turn's. -/
theorem found_hook (hvalid : ∀ c ∈ calls, c.valid = true) (hsha : NoCollision sha256 calls)
    (hmem : .hook binding event ∈ calls) (hcame : item.Came sha256 calls)
    (hid : item.id = event.workflowId sha256) :
    item.source = "codex-hook" ∧ item.sessionId = hash sha256 "cx-" event.sessionId ∧
      item.turnId = hash sha256 "turn-" event.turnId ∧
      ∃ n, item.nodes.get? (event.rootId sha256) = some n ∧ n.nodeType = "root" := by
  cases hcame with
  | hook b e mem id source sessionId turnId root =>
    have hhash : e.workflowId sha256 = event.workflowId sha256 := id.symm.trans hid
    have htext : (Call.hook b e).text = (Call.hook binding event).text :=
      hsha _ mem _ hmem (digest_of_hash hhash)
    obtain ⟨hsession, hturn⟩ := pairText_inj (not_mem_of_isOpaque
      (isOpaque_of_valid (hvalid _ mem)))
      (not_mem_of_isOpaque (isOpaque_of_valid (hvalid _ hmem))) (hashInput_inj htext)
    unfold HookEvent.rootId at root ⊢
    rw [hsession] at sessionId root
    rw [hturn] at turnId
    exact ⟨source, sessionId, turnId, root⟩
  | report b r mem id source bound =>
    have hne : orchestraId sha256 b ≠ event.workflowId sha256 :=
      hash_ne_hash (c := 'o') (d := 'w') rfl rfl (by decide)
    exact absurd (id.symm.trans hid) hne

/-- The root of a turn is touched. -/
theorem root_ok {state : String} {force : Bool} (h : item.Ok clock key) (hclock : clock ≤ now)
    (hnow : 0 < now)
    (hroot : ∀ n, item.nodes.get? (event.rootId sha256) = some n → n.nodeType = "root")
    (hstate : known state = true)
    (hnode : item.node (event.rootId sha256) "" "root" "codex" state now force = .ok item') :
    item'.Ok now key ∧ item.Keeps item' ∧
      ∃ n, item'.nodes.get? (event.rootId sha256) = some n ∧ n.nodeType = "root" :=
  ⟨node_ok h hclock hnow (hashed_hash List.mem_cons_self) (.inl rfl) (by decide)
    (by decide) hstate hnode, node_keeps h hnode, node_root h hroot hnode⟩

/-- What a helper is called. -/
theorem isSafe_agentKind (event : HookEvent) :
    isSafe (if safeText event.agentType 128 = "" then "subagent" else safeText event.agentType 128)
    128
      = true := by
  split
  · decide
  · exact decide_eq_true (safeText_safeText _ _)

/-- The state of a tool is one of those that are known. -/
theorem known_toolState (name : String) : known (toolState name) = true := by
  unfold toolState
  dsimp only
  split
  · rfl
  · rfl

/-- **What an event does to its workflow.** -/
theorem hookNodes_ok (h : item.Ok clock key) (hclock : clock ≤ now) (hnow : 0 < now)
    (hroot : ∀ n, item.nodes.get? (event.rootId sha256) = some n → n.nodeType = "root")
    (hnodes : hookNodes sha256 item event now = .ok item') :
    item'.Ok now key ∧ item.Keeps item' ∧
      ∃ n, item'.nodes.get? (event.rootId sha256) = some n ∧ n.nodeType = "root" := by
  -- the two events of a subagent: the root first, then the node under it
  have hagent : ∀ state, known state = true →
      (item.node (event.rootId sha256) "" "root" "codex" "running" now false >>= fun item =>
        item.node (hash sha256 "agent-" event.agentId) (event.rootId sha256)
          (if safeText event.agentType 128 = "" then "subagent" else safeText event.agentType 128)
          "native" state now true) = .ok item' →
      item'.Ok now key ∧ item.Keeps item' ∧
        ∃ n, item'.nodes.get? (event.rootId sha256) = some n ∧ n.nodeType = "root" := by
    intro state hstate hbind
    obtain ⟨item₁, hfirst, hsecond⟩ := bind_ok hbind
    obtain ⟨hok, hkeeps, n, hn, hkind⟩ := root_ok h hclock hnow hroot rfl hfirst
    have hkeeps' := node_keeps hok hsecond
    refine ⟨?_, hkeeps.trans hkeeps', hkeeps'.roots _ n hn hkind⟩
    refine node_ok hok (Int64.le_refl now) hnow ?_ (.inr ⟨?_, n, hn, hkind⟩)
      (isSafe_agentKind event)
      (by decide) hstate hsecond
    · exact hashed_hash (List.mem_cons_of_mem _ List.mem_cons_self)
    · exact hashed_hash List.mem_cons_self
  unfold hookNodes at hnodes
  dsimp only at hnodes
  split at hnodes
  · exact root_ok h hclock hnow hroot rfl hnodes
  · exact hagent _ (by split <;> rfl) hnodes
  · exact hagent _ (by split <;> rfl) hnodes
  · exact root_ok h hclock hnow hroot rfl hnodes
  · exact root_ok h hclock hnow hroot (known_toolState _) hnodes
  · exact root_ok h hclock hnow hroot rfl hnodes
  -- the end of the turn interrupts what still ran
  · obtain ⟨item₁, hfirst, hsecond⟩ := bind_ok hnodes
    obtain ⟨hok, hkeeps, n, hn, hkind⟩ := root_ok h hclock hnow hroot rfl hfirst
    obtain rfl := Except.ok.inj hsecond
    have hkeeps' := keeps_mapValues item₁
      (nodeType_interruptNode (some (event.rootId sha256)) now)
    exact ⟨interruptNodes_ok hok (Int64.le_refl now) _, hkeeps.trans hkeeps',
      hkeeps'.roots _ n hn hkind⟩
  · cases hnodes

/-- **An event fails** only when its workflow has no room. -/
theorem hookNodes_error {e : Error} (h : item.Ok clock key)
    (hname : event.hookEventName ∈ ["UserPromptSubmit", "SubagentStart", "SubagentStop",
      "PermissionRequest", "PreToolUse", "PostToolUse", "Stop"])
    (hroot : (∃ n, item.nodes.get? (event.rootId sha256) = some n ∧ n.nodeType = "root") ∨
      item.nodes = .empty)
    (hnodes : hookNodes sha256 item event now = .error e) : Full item.nodes := by
  -- an agent's event enters the root first, and the agent below it
  have hagent :
    ∀ state kind, (item.node (event.rootId sha256) "" "root" "codex" "running" now false >>=
        fun item => item.node (hash sha256 "agent-" event.agentId) (event.rootId sha256) kind
          "native" state now true) = .error e → Full item.nodes := by
    intro state kind hbind
    cases hfirst : item.node (event.rootId sha256) "" "root" "codex" "running" now false with
    | error e' => exact (node_error h.size hfirst).1
    | ok item₁ =>
      rw [ok_bind hfirst] at hbind
      obtain ⟨hfull, -⟩ := node_error (node_size h hfirst) hbind
      rcases hroot with ⟨n, hn, hkind⟩ | hempty
      · exact full_of_root hn hkind hfirst hfull
      · -- a workflow that has just started has one node
        exfalso
        obtain ⟨kept, hkept, hcase⟩ := node_cases hfirst
        rw [hempty] at hkept
        obtain rfl : kept = .empty := (Except.ok.inj hkept).symm
        rcases hcase with ⟨n, hn, -⟩ | rfl
        · cases hn
        · have hone := hfull.1
          rw [BTreeMap.length_insert BTreeMap.get?_empty] at hone
          cases hone
  unfold hookNodes at hnodes
  dsimp only at hnodes
  split at hnodes
  · exact (node_error h.size hnodes).1
  · exact hagent _ _ hnodes
  · exact hagent _ _ hnodes
  · exact (node_error h.size hnodes).1
  · exact (node_error h.size hnodes).1
  · exact (node_error h.size hnodes).1
  · cases hfirst : item.node (event.rootId sha256) "" "root" "codex" "completed" now true with
    | error e' => exact (node_error h.size hfirst).1
    | ok item₁ =>
      rw [ok_bind hfirst] at hnodes
      cases hnodes
  · rename_i h1 h2 h3 h4 h5 h6 h7
    have hnot : ¬event.hookEventName ∈ ["UserPromptSubmit", "SubagentStart", "SubagentStop",
        "PermissionRequest", "PreToolUse", "PostToolUse", "Stop"] := by
      simp only [List.mem_cons, List.not_mem_nil, or_false, not_or]
      exact ⟨h1, h2, h3, h4, h5, h6, h7⟩
    exact absurd hname hnot

end

/-! ### One call

Before its own workflow is looked at, an event may interrupt others. -/

section

variable {sha256 : List UInt8 → Vector UInt8 32} {calls : List Call} {clock now : Int64}
  {binding : SessionIdentity} {event : HookEvent} {r : Report} {s s' : State} {item : Item}

/-- A new item of a turn. -/
theorem newHook_ok (hbinding : bindingValid binding = true) (hnow : 0 < now) :
    Item.Ok now (event.workflowId sha256)
      { Item.new (event.workflowId sha256) binding "codex-hook" now with
        sessionId := hash sha256 "cx-" event.sessionId
        turnId := hash sha256 "turn-" event.turnId } where
  key := rfl
  hashedId := hashed_hash List.mem_cons_self
  binding := hbinding
  source := by
    unfold Item.sourceValid Item.new
    rw [if_pos rfl, hashed_hash List.mem_cons_self, hashed_hash List.mem_cons_self]
    rfl
  model := by
    show isSafe "" 128 = true
    decide
  state := rfl
  started := hnow
  updated := Int64.le_refl now
  recent := Int64.le_refl now
  size := Nat.zero_le _
  nodes := fun k n hn => nomatch hn

/-- A new report starts as a valid workflow. -/
theorem newReport_ok (hbinding : bindingValid binding = true) (hnow : 0 < now) :
    (Item.new (orchestraId sha256 binding) binding "codex-orchestra" now).Ok now
      (orchestraId sha256 binding) where
  key := rfl
  hashedId := hashed_hash (List.mem_cons_of_mem _ List.mem_cons_self)
  binding := hbinding
  source := by
    unfold Item.sourceValid Item.new
    rw [if_neg (show ("codex-orchestra" : String) ≠ "codex-hook" by decide), if_pos rfl]
    rfl
  model := by
    show isSafe "" 128 = true
    decide
  state := rfl
  started := hnow
  updated := Int64.le_refl now
  recent := Int64.le_refl now
  size := Nat.zero_le _
  nodes := fun k n hn => nomatch hn

/-- A new workflow is bound to its session. -/
theorem new_isBound (id source : String) (now : Int64) :
    (Item.new id binding source now).isBound binding = true := by
  unfold Item.isBound Item.new
  rw [decide_eq_true rfl, decide_eq_true rfl]
  rfl

/-- The model of an item, when the event names one. -/
def Item.withModel (item : Item) (event : HookEvent) : Item :=
  if safeText event.model 128 = "" then item else { item with model := safeText event.model 128 }

/-- The model is no part of what is checked. -/
theorem withModel_ok {key : String} (h : item.Ok clock key) :
    (item.withModel event).Ok clock key := by
  unfold Item.withModel
  split
  · exact h
  · exact { h with model := decide_eq_true (safeText_safeText _ _) }

/-- A workflow stays the same with its model. -/
theorem withModel_keeps (item : Item) (event : HookEvent) : item.Keeps (item.withModel event) := by
  unfold Item.withModel
  split
  · exact .refl item
  · exact ⟨rfl, rfl, rfl, rfl, rfl, rfl, fun _ n hn hroot => ⟨n, hn, hroot⟩⟩

/-- The nodes of a workflow stay the same with its model. -/
theorem nodes_withModel (item : Item) (event : HookEvent) :
    (item.withModel event).nodes = item.nodes := by
  unfold Item.withModel
  split
  · rfl
  · rfl

/-- What is known of the item of an event before it is touched. -/
theorem hookItem_spec (hvalid : ∀ c ∈ calls, c.valid = true) (hsha : NoCollision sha256 calls)
    (hmem : .hook binding event ∈ calls) (hnow : 0 < now)
    (hitems : ItemsOk sha256 calls now s.workflows) :
    (hookItem sha256 s binding event now).Ok now (event.workflowId sha256) ∧
      ((∃ n, (hookItem sha256 s binding event now).nodes.get? (event.rootId sha256) = some n ∧
          n.nodeType = "root") ∨ (hookItem sha256 s binding event now).nodes = .empty) ∧
      (hookItem sha256 s binding event now).source = "codex-hook" ∧
      (hookItem sha256 s binding event now).sessionId = hash sha256 "cx-" event.sessionId ∧
      (hookItem sha256 s binding event now).turnId = hash sha256 "turn-" event.turnId ∧
      ((hookItem sha256 s binding event now).isBound binding = false →
        s.workflows.get? (event.workflowId sha256) = some (hookItem sha256 s binding event now)) ∧
      (Full (hookItem sha256 s binding event now).nodes →
        s.workflows.get? (event.workflowId sha256) = some
        (hookItem sha256 s binding event now)) := by
  unfold hookItem
  cases hget : s.workflows.get? (event.workflowId sha256) with
  | some item =>
    obtain ⟨hok, hcame⟩ := hitems _ item hget
    obtain ⟨hsource, hsession, hturn, hroot⟩ := found_hook hvalid hsha hmem hcame hok.key.symm
    exact ⟨hok, .inl hroot, hsource, hsession, hturn, fun _ => rfl, fun _ => rfl⟩
  | none =>
    refine ⟨newHook_ok (bindingValid_of_valid (hvalid _ hmem)) hnow, .inr rfl, rfl, rfl, rfl,
      fun hbound => ?_, fun hfull => ?_⟩
    · have hself : (Item.new (event.workflowId sha256) binding "codex-hook" now).isBound binding
          = true := new_isBound _ _ _
      exact absurd (hself.symm.trans hbound) (by decide)
    · cases hfull.1

/-- The item of a turn is not one of those that its prompt interrupts. -/
theorem get?_interruptOthers (hitems : ItemsOk sha256 calls clock s.workflows) :
    (interruptOthers sha256 s binding event now).workflows.get? (event.workflowId sha256)
      = s.workflows.get? (event.workflowId sha256) := by
  unfold interruptOthers
  dsimp only
  rw [BTreeMap.get?_mapValues]
  cases hget : s.workflows.get? (event.workflowId sha256) with
  | none => rfl
  | some item =>
    have hkey := (hitems _ item hget).1.key
    rw [Option.map_some, decide_eq_false (fun hne => hne hkey.symm), Bool.false_and, Bool.false_and,
      Bool.false_and, Bool.false_and, if_neg Bool.false_ne_true]

/-- The state in which an event finds its item. -/
def hookState (sha256 : List UInt8 → Vector UInt8 32) (s : State) (binding : SessionIdentity)
    (event : HookEvent) (now : Int64) : State :=
  if event.hookEventName = "UserPromptSubmit" then interruptOthers sha256 s binding event now else s

/-- **What a hook does before its own workflow**: others of the session are interrupted. -/
theorem hookState_spec (binding : SessionIdentity) (event : HookEvent)
    (hitems : ItemsOk sha256 calls clock s.workflows) (hclock : clock ≤ now) :
    ItemsOk sha256 calls now (hookState sha256 s binding event now).workflows ∧
      (hookState sha256 s binding event now).version = s.version ∧
      (hookState sha256 s binding event now).workflows.get? (event.workflowId sha256)
        = s.workflows.get? (event.workflowId sha256) := by
  unfold hookState
  split
  · exact ⟨itemsOk_interrupt hitems hclock _, rfl, get?_interruptOthers hitems⟩
  · exact ⟨fun k item hitem => ⟨(hitems k item hitem).1.mono hclock, (hitems k item hitem).2⟩, rfl,
      rfl⟩

/-- The checks and what follows them, for every event but the end of a session. -/
theorem recordHook_eq (hname : event.hookEventName ≠ "SessionEnd") :
    recordHook sha256 s binding event now =
      (require ((hookItem sha256 (hookState sha256 s binding event now) binding event now).isBound
          binding &&
        (hookItem sha256 (hookState sha256 s binding event now) binding event now).source =
          "codex-hook" &&
        (hookItem sha256 (hookState sha256 s binding event now) binding event now).sessionId =
          hash sha256 "cx-" event.sessionId &&
        (hookItem sha256 (hookState sha256 s binding event now) binding event now).turnId =
          hash sha256 "turn-" event.turnId) Error.invalid >>= fun _ =>
        hookNodes sha256 ((hookItem sha256 (hookState sha256 s binding event now) binding event
          now).withModel event) event now >>= fun item =>
        .ok { hookState sha256 s binding event now with
          workflows := (hookState sha256 s binding event now).workflows.insert
            (event.workflowId sha256) (item.refresh now) }) := by
  unfold recordHook
  rw [if_neg hname]
  rfl

/-- **A hook that succeeds** leaves every item as the store keeps it. -/
theorem recordHook_ok (hvalid : ∀ c ∈ calls, c.valid = true) (hsha : NoCollision sha256 calls)
    (hmem : .hook binding event ∈ calls) (hclock : clock ≤ now) (hnow : 0 < now)
    (hitems : ItemsOk sha256 calls clock s.workflows)
    (h : recordHook sha256 s binding event now = .ok s') :
    ItemsOk sha256 calls now s'.workflows ∧ s'.version = s.version := by
  by_cases hname : event.hookEventName = "SessionEnd"
  · unfold recordHook at h
    rw [if_pos hname] at h
    obtain rfl := Except.ok.inj h
    exact ⟨itemsOk_interrupt hitems hclock _, rfl⟩
  · rw [recordHook_eq hname] at h
    obtain ⟨hitems', hversion, -⟩ := hookState_spec binding event hitems hclock
    obtain ⟨hok, hroot, hsource, hsession, hturn, -⟩ :=
      hookItem_spec hvalid hsha hmem hnow hitems'
    obtain ⟨⟨⟩, -, h⟩ := bind_ok h
    obtain ⟨item, hnodes, h⟩ := bind_ok h
    obtain rfl := Except.ok.inj h
    generalize hookItem sha256 (hookState sha256 s binding event now) binding event now = found at *
    have hroots : ∀ n, (found.withModel event).nodes.get? (event.rootId sha256) = some n →
        n.nodeType = "root" := by
      intro n hn
      rw [nodes_withModel] at hn
      rcases hroot with ⟨root, hfound, hkind⟩ | hempty
      · rw [hfound] at hn
        rwa [← Option.some.inj hn]
      · rw [hempty] at hn
        cases hn
    obtain ⟨hok', hkeeps, hroot'⟩ :=
      hookNodes_ok (withModel_ok hok) (Int64.le_refl now) hnow hroots hnodes
    have hkept := ((withModel_keeps found event).trans hkeeps).trans (refresh_keeps item now)
    refine ⟨itemsOk_insert hitems' (refresh_ok hok' (Int64.le_refl now)) ?_, hversion⟩
    exact .hook binding event hmem (hkept.id.trans hok.key.symm) (hkept.source.trans hsource)
      (hkept.sessionId.trans hsession) (hkept.turnId.trans hturn) hroot'

/-- **A hook fails** only when its turn is bound elsewhere or has no room. -/
theorem recordHook_error {e : Error} (hvalid : ∀ c ∈ calls, c.valid = true)
    (hsha : NoCollision sha256 calls) (hmem : .hook binding event ∈ calls) (hclock : clock ≤ now)
    (hnow : 0 < now) (hitems : ItemsOk sha256 calls clock s.workflows)
    (h : recordHook sha256 s binding event now = .error e) :
    (Call.hook binding event).BoundElsewhere sha256 s ∨
    (Call.hook binding event).FullOf sha256 s := by
  -- the end of a session is never refused
  by_cases hname : event.hookEventName = "SessionEnd"
  · unfold recordHook at h
    rw [if_pos hname] at h
    cases h
  · rw [recordHook_eq hname] at h
    obtain ⟨hitems', -, hsame⟩ := hookState_spec binding event hitems hclock
    obtain ⟨hok, hroot, hsource, hsession, hturn, hbound, hfull⟩ :=
      hookItem_spec hvalid hsha hmem hnow hitems'
    rw [hsame] at hbound hfull
    generalize hookItem sha256 (hookState sha256 s binding event now) binding event now = found at *
    rw [hsource, hsession, hturn, decide_eq_true rfl, decide_eq_true rfl, decide_eq_true rfl,
      Bool.and_true, Bool.and_true, Bool.and_true] at h
    -- an item that is bound to another session or turn
    cases hcheck : found.isBound binding with
    | false => exact .inl ⟨found, hbound hcheck, hsession, hturn, hcheck⟩
    | true =>
      right
      rw [hcheck, ok_bind (require_ok.mpr rfl)] at h
      -- the events that are left are those that touch the nodes
      have hname' : event.hookEventName ∈ ["UserPromptSubmit", "SubagentStart", "SubagentStop",
          "PermissionRequest", "PreToolUse", "PostToolUse", "Stop"] := by
        have hall : event.hookEventName ∈ ["UserPromptSubmit", "SubagentStart", "SubagentStop",
            "PermissionRequest", "PreToolUse", "PostToolUse", "Stop"] ++ ["SessionEnd"] :=
          name_of_valid (hvalid _ hmem)
        rcases List.mem_append.mp hall with hother | hend
        · exact hother
        · exact absurd (List.mem_singleton.mp hend) hname
      cases hnodes : hookNodes sha256 (found.withModel event) event now with
      | ok item =>
        rw [ok_bind hnodes] at h
        cases h
      | error e' =>
        -- the nodes are refused only when the item is full
        have hfull' := hookNodes_error (withModel_ok hok) hname'
          (by rwa [nodes_withModel]) hnodes
        rw [nodes_withModel] at hfull'
        exact ⟨found, hfull hfull', hfull'⟩

/-! ### Reports

The tasks of a session have a workflow of their own. -/

/-- A valid report has a valid binding and a known status. -/
theorem report_of_valid (h : (Call.report binding r).valid = true) :
    bindingValid binding = true ∧ known r.status = true := by
  unfold Call.valid at h
  rw [Bool.and_eq_true, Bool.and_eq_true, List.contains_iff_mem] at h
  have hall : ∀ state ∈ ["running", "completed", "failed", "interrupted"], known state = true := by
    decide
  exact ⟨h.1.1, hall _ h.2⟩

/-- A session identifier has no separator in it. -/
theorem not_mem_of_binding (h : bindingValid binding = true) : '\x00' ∉ binding.id.toList := by
  intro hmem
  unfold bindingValid validateSessionId at h
  simp only [Bool.and_eq_true] at h
  obtain ⟨⟨⟨-, hhead⟩, htail⟩, -⟩ := h
  have hzero : (0 : UInt8) ∈ bytes binding.id := by
    rw [bytes_eq_flatMap]
    exact List.mem_flatMap.mpr ⟨'\x00', hmem, by decide⟩
  cases hbytes : bytes binding.id with
  | nil =>
    rw [hbytes] at hzero
    cases hzero
  | cons b rest =>
    rw [hbytes] at hzero hhead htail
    rcases List.mem_cons.mp hzero with rfl | hrest
    · cases hhead
    · cases List.all_eq_true.mp htail 0 hrest

/-- The item that has the identifier of a session's tasks is that session's. -/
theorem found_report (hvalid : ∀ c ∈ calls, c.valid = true) (hsha : NoCollision sha256 calls)
    (hmem : .report binding r ∈ calls) (hcame : item.Came sha256 calls)
    (hid : item.id = orchestraId sha256 binding) :
    item.source = "codex-orchestra" ∧ item.isBound binding = true := by
  cases hcame with
  | hook b e mem id source sessionId turnId root =>
    have hne : e.workflowId sha256 ≠ orchestraId sha256 binding :=
      hash_ne_hash (c := 'w') (d := 'o') rfl rfl (by decide)
    exact absurd (id.symm.trans hid) hne
  | report b r' mem id source bound =>
    have hhash : orchestraId sha256 b = orchestraId sha256 binding := id.symm.trans hid
    have htext : (Call.report b r').text = (Call.report binding r).text :=
      hsha _ mem _ hmem (digest_of_hash hhash)
    obtain ⟨hsession, hcreated⟩ :=
      pairText_inj (not_mem_of_binding (report_of_valid (hvalid _ mem)).1)
        (not_mem_of_binding (report_of_valid (hvalid _ hmem)).1) (hashInput_inj htext)
    unfold Item.isBound at bound ⊢
    rw [hsession, Json.Compact.int64_toString_inj hcreated] at bound
    exact ⟨source, bound⟩

/-- What is known of the item of a report before it is touched. -/
theorem reportItem_spec (hvalid : ∀ c ∈ calls, c.valid = true) (hsha : NoCollision sha256 calls)
    (hmem : .report binding r ∈ calls) (hnow : 0 < now)
    (hitems : ItemsOk sha256 calls now s.workflows) :
    (reportItem sha256 s binding now).Ok now (orchestraId sha256 binding) ∧
      (reportItem sha256 s binding now).source = "codex-orchestra" ∧
      (reportItem sha256 s binding now).isBound binding = true ∧
      (Full (reportItem sha256 s binding now).nodes →
        s.workflows.get? (orchestraId sha256 binding) = some
        (reportItem sha256 s binding now)) := by
  unfold reportItem
  cases hget : s.workflows.get? (orchestraId sha256 binding) with
  | some item =>
    obtain ⟨hok, hcame⟩ := hitems _ item hget
    obtain ⟨hsource, hbound⟩ := found_report hvalid hsha hmem hcame hok.key.symm
    exact ⟨hok, hsource, hbound, fun _ => rfl⟩
  | none =>
    refine ⟨newReport_ok (report_of_valid (hvalid _ hmem)).1 hnow, rfl, new_isBound _ _ _,
      fun hfull => ?_⟩
    cases hfull.1

/-- **A report that succeeds** leaves every item as the store keeps it. -/
theorem recordReport_ok (hvalid : ∀ c ∈ calls, c.valid = true) (hsha : NoCollision sha256 calls)
    (hmem : .report binding r ∈ calls) (hnow : 0 < now)
    (hitems : ItemsOk sha256 calls now s.workflows)
    (h : recordReport sha256 s binding r now = .ok s') :
    ItemsOk sha256 calls now s'.workflows ∧ s'.version = s.version := by
  obtain ⟨hok, hsource, hbound, -⟩ := reportItem_spec hvalid hsha hmem hnow hitems
  obtain ⟨-, hstate⟩ := report_of_valid (hvalid _ hmem)
  unfold recordReport at h
  obtain ⟨⟨⟩, -, h⟩ := bind_ok h
  obtain ⟨item, hnode, h⟩ := bind_ok h
  obtain rfl := Except.ok.inj h
  have htask : hashed (hash sha256 "task-" r.taskId) ["root-", "agent-", "task-"] = true :=
    hashed_hash (List.mem_cons_of_mem _ (List.mem_cons_of_mem _ List.mem_cons_self))
  have hok' := node_ok hok (Int64.le_refl now) hnow htask (.inl rfl) (by decide)
    (by decide) hstate hnode
  have hkeeps := (node_keeps hok hnode).trans (refresh_keeps item now)
  refine ⟨itemsOk_insert hitems (refresh_ok hok' (Int64.le_refl now)) ?_, rfl⟩
  exact .report binding r hmem (hkeeps.id.trans hok.key.symm) (hkeeps.source.trans hsource)
    (hkeeps.isBound.trans hbound)

/-- **A report fails** only when there is no room for its task. -/
theorem recordReport_error {e : Error} (hvalid : ∀ c ∈ calls, c.valid = true)
    (hsha : NoCollision sha256 calls) (hmem : .report binding r ∈ calls) (hnow : 0 < now)
    (hitems : ItemsOk sha256 calls now s.workflows)
    (h : recordReport sha256 s binding r now = .error e) :
    (Call.report binding r).FullOf sha256 s := by
  obtain ⟨hok, hsource, hbound, hfull⟩ := reportItem_spec hvalid hsha hmem hnow hitems
  unfold recordReport at h
  dsimp only at h
  rw [hsource, hbound, decide_eq_true rfl, Bool.and_true, ok_bind (require_ok.mpr rfl)] at h
  cases hnode : (reportItem sha256 s binding now).node (hash sha256 "task-" r.taskId) "" "task"
      "detached-codex" r.status now true with
  | ok item =>
    rw [ok_bind hnode] at h
    cases h
  | error e' =>
    have hnone := (node_error hok.size hnode).1
    exact ⟨_, hfull hnone, hnone⟩

end

end Hmux.Workflow
