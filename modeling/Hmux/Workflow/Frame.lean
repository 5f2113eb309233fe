import Hmux.Workflow.Runs

namespace Hmux.Workflow

open Lib

/-!
# Whose workflows change

A store file is shared by every tmux session of a user.  What a call leaves alone, over any run of
calls, with the pruning and the writes that come with each of them:

* `Call.Touches` — the workflows that a call is about;
* `Dropped` — why pruning drops a workflow, `written_cases` — that nothing else does;
* `run_item` — the induction: what every call and the aging of a workflow preserve, every run
  preserves for as long as the workflow is there;
* `untouched_run` — a workflow that no call of a run is about is only aged, until it is dropped;
* `ended_run` — a turn that has ended stays ended until its next prompt.
-/

section

variable (sha256 : List UInt8 → Vector UInt8 32)

/-- The call is about this workflow: an event of its turn, the end of its agent, a new prompt of its
    agent while it is active, or a report of its tasks. -/
def Call.Touches (key : String) (item : Item) : Call → Prop
  | .hook binding e =>
    item.isBound binding = true ∧ item.sessionId = hash sha256 "cx-" e.sessionId ∧
      (e.hookEventName = "SessionEnd" ∨ key = e.workflowId sha256 ∨
        e.hookEventName = "UserPromptSubmit" ∧ item.source = "codex-hook" ∧
          active item.status = true)
  | .report binding _ => item.isBound binding = true ∧ key = orchestraId sha256 binding

/-- The call is a new prompt of this turn. -/
def Call.Prompts (key : String) : Call → Prop
  | .hook _ e => e.hookEventName = "UserPromptSubmit" ∧ e.workflowId sha256 = key
  | .report _ _ => False

end

/-- The node is a root that has ended. -/
def Item.Ended (root : String) (item : Item) : Prop :=
  ∃ n, item.nodes.get? root = some n ∧ n.nodeType = "root" ∧ terminal n.status = true ∧
    n.status ≠ "stale"

/-- Every node is there under its identifier. -/
def Keyed (nodes : BTreeMap String Node) : Prop := ∀ k n, nodes.get? k = some n → n.id = k

section

variable {sha256 : List UInt8 → Vector UInt8 32} {s s' : State} {item item' : Item}
  {key root : String} {now : Int64} {call : Call}

/-! ### One call and the workflows that it is not about

An event interrupts the other turns of its agent at most, which is part of what it is about. -/

/-- What has ended is not active. -/
theorem not_active_of_terminal {status : String} (h : terminal status = true) :
    active status = false := by
  unfold terminal at h
  simp only [Bool.or_eq_true, decide_eq_true_eq] at h
  rcases h with ((rfl | rfl) | rfl) | rfl <;> rfl

/-- **One call** leaves every workflow that it is not about. -/
theorem action_frame (h : call.action sha256 s now = .ok s')
    (hitem : s.workflows.get? key = some item) (hnot : ¬ call.Touches sha256 key item) :
    s'.workflows.get? key = some item := by
  cases call with
  | hook binding e =>
    -- a prompt interrupts the other turns of its session, not this one
    have hprompt : ∀ s₁, s₁ = (if e.hookEventName = "UserPromptSubmit" then
        interruptOthers sha256 s binding e now else s) → s₁.workflows.get? key = some item := by
      rintro s₁ rfl
      split
      · next hname =>
        unfold interruptOthers
        dsimp only
        rw [BTreeMap.get?_mapValues, hitem, Option.map_some, if_neg]
        intro hcond
        simp only [Bool.and_eq_true, decide_eq_true_eq] at hcond
        obtain ⟨⟨⟨⟨-, hsource⟩, hsession⟩, hbound⟩, hactive⟩ := hcond
        exact hnot ⟨hbound, hsession, .inr (.inr ⟨hname, hsource, hactive⟩)⟩
      · exact hitem
    replace h : recordHook sha256 s binding e now = .ok s' := h
    unfold recordHook at h
    -- the end of a session interrupts its turns
    split at h
    · next hname =>
      obtain rfl := Except.ok.inj h
      unfold interruptAll
      dsimp only
      rw [BTreeMap.get?_mapValues, hitem, Option.map_some, if_neg]
      intro hcond
      simp only [Bool.and_eq_true, decide_eq_true_eq] at hcond
      exact hnot ⟨hcond.1, hcond.2, .inl hname⟩
    · have hkept := hprompt _ rfl
      revert h hkept
      generalize (if e.hookEventName = "UserPromptSubmit" then interruptOthers sha256 s
        binding e now
        else s) = s₁
      intro h hkept
      dsimp only at h
      obtain ⟨⟨⟩, hrequire, h⟩ := bind_ok h
      obtain ⟨item₁, -, h⟩ := bind_ok h
      obtain rfl := Except.ok.inj h
      dsimp only
      -- the workflow of the hook itself is touched by it
      by_cases hkey : key = e.workflowId sha256
      · exfalso
        have hfound : hookItem sha256 s₁ binding e now = item := by
          unfold hookItem
          rw [← hkey, hkept, Option.getD_some]
        rw [hfound] at hrequire
        have hcond := require_ok.mp hrequire
        simp only [Bool.and_eq_true, decide_eq_true_eq] at hcond
        obtain ⟨⟨⟨hbound, -⟩, hsession⟩, -⟩ := hcond
        exact hnot ⟨hbound, hsession, .inr (.inl hkey)⟩
      · rw [BTreeMap.get?_insert_ne hkey]
        exact hkept
  | report binding r =>
    replace h : recordReport sha256 s binding r now = .ok s' := h
    unfold recordReport at h
    dsimp only at h
    obtain ⟨⟨⟩, hrequire, h⟩ := bind_ok h
    obtain ⟨item₁, -, h⟩ := bind_ok h
    obtain rfl := Except.ok.inj h
    dsimp only
    -- so is the workflow of the report
    by_cases hkey : key = orchestraId sha256 binding
    · exfalso
      have hfound : reportItem sha256 s binding now = item := by
        unfold reportItem
        rw [← hkey, hitem, Option.getD_some]
      rw [hfound] at hrequire
      have hcond := require_ok.mp hrequire
      simp only [Bool.and_eq_true, decide_eq_true_eq] at hcond
      exact hnot ⟨hcond.1, hkey⟩
    · rw [BTreeMap.get?_insert_ne hkey]
      exact hitem

/-! ### A turn that has ended -/

/-- A root that has ended stays so if changes leave ended nodes alone. -/
theorem ended_mapValues {f : Node → Node} (hf : ∀ n, terminal n.status = true → f n = n)
    (h : item.Ended root) : Item.Ended root { item with nodes := item.nodes.mapValues f } := by
  obtain ⟨n, hn, hkind, hterminal, hstale⟩ := h
  refine ⟨n, ?_, hkind, hterminal, hstale⟩
  show (item.nodes.mapValues f).get? root = some n
  rw [BTreeMap.get?_mapValues, hn, Option.map_some, hf n hterminal]

/-- Only what is active is interrupted. -/
theorem interruptNode_terminal (kept : Option String) (now : Int64) {n : Node}
    (h : terminal n.status = true) : Item.interruptNode kept now n = n := by
  unfold Item.interruptNode
  rw [not_active_of_terminal h, Bool.and_false, if_neg Bool.false_ne_true]

/-- An interruption leaves a root that has ended as it is. -/
theorem ended_interrupt (h : item.Ended root) : (item.interrupt now).Ended root :=
  ended_mapValues (fun _ hn => interruptNode_terminal none now hn) h

/-- Aging leaves a root that has ended as it is. -/
theorem ended_stale (h : item.Ended root) : (item.stale now).Ended root := by
  unfold Item.stale
  split
  · obtain ⟨n, hn, hrest⟩ := ended_mapValues
      (f := fun n =>
        if active n.status then { n with status := "stale", endedAt := n.updatedAt } else n)
      (fun n hn => if_neg (by rw [not_active_of_terminal hn]; exact Bool.false_ne_true)) h
    exact ⟨n, hn, hrest⟩
  · exact h

/-- The node that makes room is no root. -/
theorem makeRoom_root {nodes kept : BTreeMap String Node} {id : String} {n : Node}
    (hkeyed : Keyed nodes) (h : Item.makeRoom nodes id = .ok kept) :
    Keyed kept ∧ (nodes.get? root = some n → n.nodeType = "root" → kept.get? root = some n) := by
  unfold Item.makeRoom at h
  split at h
  · split at h
    · cases h
    · next v hv =>
      obtain rfl := Except.ok.inj h
      obtain ⟨hmem, hevictable⟩ := evicted_mem hv
      refine ⟨fun k m hm => hkeyed k m (BTreeMap.get?_erase.mp hm).1, fun hn hroot => ?_⟩
      refine BTreeMap.get?_erase.mpr ⟨hn, fun heq => ?_⟩
      obtain ⟨k, hk⟩ := BTreeMap.mem_values.mp hmem
      have hsame : k = root := (hkeyed k v hk).symm.trans heq.symm
      rw [hsame, hn] at hk
      obtain rfl := Option.some.inj hk
      exact evictable_kind hevictable hroot
  · obtain rfl := Except.ok.inj h
    exact ⟨hkeyed, fun hn _ => hn⟩

/-- **A node comes into a state**: a root that has ended stays ended, unless it is the node and the
    call is forced into another state. -/
theorem node_ended {id parent kind provider state : String} {force : Bool}
    (hkeyed : Keyed item.nodes) (h : item.node id parent kind provider state now force = .ok item')
    (hsafe : id = root → force = false ∨ state = "completed") (hended : item.Ended root) :
    Keyed item'.nodes ∧ item'.Ended root := by
  obtain ⟨n, hn, hkind, hterminal, hstale⟩ := hended
  unfold Item.node at h
  obtain ⟨kept, hkept, h⟩ := bind_ok h
  obtain ⟨hkeyed', hsame⟩ := makeRoom_root hkeyed hkept
  -- making room never takes the root
  have hroot : kept.get? root = some n := hsame hn hkind
  dsimp only at h
  split at h
  · obtain rfl := Except.ok.inj h
    exact ⟨hkeyed', n, hroot, hkind, hterminal, hstale⟩
  · next hrun =>
    obtain rfl := Except.ok.inj h
    constructor
    · intro k m hm
      replace hm : (kept.insert id _).get? k = some m := hm
      rw [BTreeMap.get?_insert] at hm
      split at hm
      · next heq =>
        rw [heq, ← Option.some.inj hm]
        cases hget : kept.get? id with
        | none => rfl
        | some m' => exact hkeyed' id m' hget
      · exact hkeyed' k m hm
    -- the node that is written may be the root itself
    · by_cases heq : root = id
      · subst heq
        rw [hroot, Option.getD_some] at hrun ⊢
        refine ⟨_, BTreeMap.get?_insert_self, hkind, ?_⟩
        rcases hsafe rfl with rfl | rfl
        · -- the call is not forced, and the root has ended
          exfalso
          apply hrun
          rw [hterminal, decide_eq_true hstale]
          rfl
        · exact ⟨rfl, show "completed" ≠ "stale" by decide⟩
      · exact ⟨n, (BTreeMap.get?_insert_ne heq).trans hroot, hkind, hterminal, hstale⟩

/-- **An event that is no prompt** does not revive a root that has ended. -/
theorem hookNodes_ended {e : HookEvent} {agent : String} (hkeyed : Keyed item.nodes)
    (h : hookNodes sha256 item e now = .ok item') (hname : e.hookEventName ≠ "UserPromptSubmit")
    (hended : item.Ended (hash sha256 "root-" agent)) :
    item'.Ended (hash sha256 "root-" agent) := by
  have hagent : ∀ state,
      (item.node (e.rootId sha256) "" "root" "codex" "running" now false >>= fun item =>
        item.node (hash sha256 "agent-" e.agentId) (e.rootId sha256)
          (if safeText e.agentType 128 = "" then "subagent" else safeText e.agentType 128)
          "native" state now true) = .ok item' → item'.Ended (hash sha256 "root-" agent) := by
    intro state hbind
    obtain ⟨item₁, hfirst, hsecond⟩ := bind_ok hbind
    obtain ⟨hkeyed₁, hended₁⟩ := node_ended hkeyed hfirst (fun _ => .inl rfl) hended
    have hne : hash sha256 "agent-" e.agentId ≠ hash sha256 "root-" agent :=
      hash_ne_hash (c := 'a') (d := 'r') rfl rfl (by decide)
    exact (node_ended hkeyed₁ hsecond (fun heq => absurd heq hne) hended₁).2
  unfold hookNodes at h
  dsimp only at h
  split at h
  · next heq => exact absurd heq hname
  · exact hagent _ h
  · exact hagent _ h
  · exact (node_ended hkeyed h (fun _ => .inl rfl) hended).2
  · exact (node_ended hkeyed h (fun _ => .inl rfl) hended).2
  · exact (node_ended hkeyed h (fun _ => .inl rfl) hended).2
  · obtain ⟨item₁, hfirst, hsecond⟩ := bind_ok h
    obtain ⟨-, hended₁⟩ := node_ended hkeyed hfirst (fun _ => .inr rfl) hended
    obtain rfl := Except.ok.inj hsecond
    exact ended_mapValues (fun _ hn => interruptNode_terminal _ now hn) hended₁
  · cases h

/-- **One call** leaves a turn ended, unless it is its next prompt. -/
theorem action_ended {agent : String} (h : call.action sha256 s now = .ok s')
    (hkeyed : ∀ k i, s.workflows.get? k = some i → Keyed i.nodes)
    (hitem : s.workflows.get? key = some item) (hnot : ¬ call.Prompts sha256 key)
    (hended : item.Ended (hash sha256 "root-" agent)) :
    ∃ item', s'.workflows.get? key = some item' ∧ item'.Ended (hash sha256 "root-" agent) := by
  cases call with
  | hook binding e =>
    replace h : recordHook sha256 s binding e now = .ok s' := h
    unfold recordHook at h
    split at h
    -- interruptions leave ended roots alone
    · obtain rfl := Except.ok.inj h
      refine ⟨_, BTreeMap.get?_mapValues.trans (congrArg (Option.map _) hitem), ?_⟩
      dsimp only
      split
      · exact ended_interrupt hended
      · exact hended
    -- so does a prompt of another turn
    · have hkept : ∃ item₁, (if e.hookEventName = "UserPromptSubmit" then
          interruptOthers sha256 s binding e now else s).workflows.get? key = some item₁ ∧
          item₁.Ended (hash sha256 "root-" agent) ∧
          (key = e.workflowId sha256 → e.hookEventName ≠ "UserPromptSubmit" ∧ item₁ = item) := by
        split
        · next hname =>
          refine ⟨_, BTreeMap.get?_mapValues.trans (congrArg (Option.map _) hitem), ?_, ?_⟩
          · dsimp only
            split
            · exact ended_interrupt hended
            · exact hended
          · intro hkey
            exact absurd ⟨hname, hkey.symm⟩ hnot
        · next hname => exact ⟨item, hitem, hended, fun _ => ⟨hname, rfl⟩⟩
      obtain ⟨item₁, hitem₁, hended₁, hself⟩ := hkept
      revert h hitem₁
      generalize (if e.hookEventName = "UserPromptSubmit" then interruptOthers sha256 s
        binding e now
        else s) = s₁
      intro h hitem₁
      dsimp only at h
      obtain ⟨⟨⟩, -, h⟩ := bind_ok h
      obtain ⟨item₂, hnodes, h⟩ := bind_ok h
      obtain rfl := Except.ok.inj h
      dsimp only
      -- the workflow of the hook: no prompt of it, so its root stays ended
      by_cases hkey : key = e.workflowId sha256
      · obtain ⟨hname, rfl⟩ := hself hkey
        have hfound : hookItem sha256 s₁ binding e now = item₁ := by
          unfold hookItem
          rw [← hkey, hitem₁, Option.getD_some]
        rw [hfound] at hnodes
        rw [hkey]
        refine ⟨_, BTreeMap.get?_insert_self, ?_⟩
        have hkeyed₁ : Keyed item₁.nodes := hkeyed _ _ hitem
        have hmodel : Item.Ended (hash sha256 "root-" agent)
            { item₁ with model := safeText e.model 128 } := hended₁
        have hended₂ : item₂.Ended (hash sha256 "root-" agent) := by
          split at hnodes
          · exact hookNodes_ended hkeyed₁ hnodes hname hended₁
          · refine hookNodes_ended ?_ hnodes hname hmodel
            exact hkeyed₁
        exact hended₂
      · exact ⟨item₁, (BTreeMap.get?_insert_ne hkey).trans hitem₁, hended₁⟩
  | report binding r =>
    replace h : recordReport sha256 s binding r now = .ok s' := h
    unfold recordReport at h
    dsimp only at h
    obtain ⟨⟨⟩, -, h⟩ := bind_ok h
    obtain ⟨item₁, hnode, h⟩ := bind_ok h
    obtain rfl := Except.ok.inj h
    dsimp only
    by_cases hkey : key = orchestraId sha256 binding
    · have hfound : reportItem sha256 s binding now = item := by
        unfold reportItem
        rw [← hkey, hitem, Option.getD_some]
      rw [hfound] at hnode
      -- a report changes its task, which is not the root
      have hne : hash sha256 "task-" r.taskId ≠ hash sha256 "root-" agent :=
        hash_ne_hash (c := 't') (d := 'r') rfl rfl (by decide)
      have hended₁ := (node_ended (hkeyed _ _ hitem) hnode (fun heq => absurd heq hne) hended).2
      rw [hkey]
      exact ⟨_, BTreeMap.get?_insert_self, hended₁⟩
    · exact ⟨item, (BTreeMap.get?_insert_ne hkey).trans hitem, hended⟩

/-! ### Identifiers

What is written is read back under the same identifier, since every operation keeps it. -/

/-- A node changes no id of a workflow. -/
theorem node_id {id parent kind provider state : String} {force : Bool}
    (h : item.node id parent kind provider state now force = .ok item') : item'.id = item.id := by
  unfold Item.node at h
  obtain ⟨kept, -, h⟩ := bind_ok h
  dsimp only at h
  split at h
  · obtain rfl := Except.ok.inj h
    rfl
  · obtain rfl := Except.ok.inj h
    rfl

/-- All nodes of a hook change no id of a workflow. -/
theorem hookNodes_id {e : HookEvent} (h : hookNodes sha256 item e now = .ok item') :
    item'.id = item.id := by
  have hagent : ∀ {kind state : String},
      (item.node (e.rootId sha256) "" "root" "codex" "running" now false >>= fun item =>
        item.node (hash sha256 "agent-" e.agentId) (e.rootId sha256) kind "native" state now true)
        = .ok item' → item'.id = item.id := by
    intro kind state hbind
    obtain ⟨item₁, hfirst, hsecond⟩ := bind_ok hbind
    rw [node_id hsecond, node_id hfirst]
  unfold hookNodes at h
  dsimp only at h
  split at h
  · exact node_id h
  · exact hagent h
  · exact hagent h
  · exact node_id h
  · exact node_id h
  · exact node_id h
  · obtain ⟨item₁, hfirst, hsecond⟩ := bind_ok h
    obtain rfl := Except.ok.inj hsecond
    have hid : item₁.id = item.id := node_id hfirst
    exact hid
  · cases h

/-- Every workflow is there under its identifier. -/
def Named (m : BTreeMap String Item) : Prop := ∀ k i, m.get? k = some i → i.id = k

/-- Workflows keep their keys when each keeps its id. -/
theorem named_mapValues {m : BTreeMap String Item} {f : Item → Item} (h : Named m)
    (hf : ∀ i, (f i).id = i.id) : Named (m.mapValues f) := by
  intro k i hi
  rw [BTreeMap.get?_mapValues, Option.map_eq_some_iff] at hi
  obtain ⟨i', hi', rfl⟩ := hi
  rw [hf, h k i' hi']

/-- A workflow is entered under its id. -/
theorem named_insert {m : BTreeMap String Item} (h : Named m) (hid : item.id = key) :
    Named (m.insert key item) := by
  intro k i hi
  rw [BTreeMap.get?_insert] at hi
  split at hi
  · next hkey => rw [← Option.some.inj hi, hid, hkey]
  · exact h k i hi

/-- Aging changes no id. -/
theorem stale_id (item : Item) (now : Int64) : (item.stale now).id = item.id :=
  (stale_keeps item now).id

/-- **One call** leaves every workflow under its identifier. -/
theorem action_named (h : call.action sha256 s now = .ok s') (hnamed : Named s.workflows) :
    Named s'.workflows := by
  cases call with
  | hook binding e =>
    replace h : recordHook sha256 s binding e now = .ok s' := h
    -- the end of an agent interrupts its turns, a new prompt the other turns of its agent
    unfold recordHook at h
    split at h
    · obtain rfl := Except.ok.inj h
      refine named_mapValues hnamed fun i => ?_
      split
      · exact (interrupt_keeps i now).id
      · rfl
    · have hothers : Named (if e.hookEventName = "UserPromptSubmit" then
          interruptOthers sha256 s binding e now else s).workflows := by
        split
        · refine named_mapValues hnamed fun i => ?_
          split
          · exact (interrupt_keeps i now).id
          · rfl
        · exact hnamed
      revert h hothers
      generalize (if e.hookEventName = "UserPromptSubmit" then interruptOthers sha256 s
        binding e now
        else s) = s₁
      intro h hothers
      dsimp only at h
      obtain ⟨⟨⟩, -, h⟩ := bind_ok h
      obtain ⟨item₂, hnodes, h⟩ := bind_ok h
      obtain rfl := Except.ok.inj h
      refine named_insert hothers ?_
      -- the item is the one under its key, or a new one with that name
      have hfound : (hookItem sha256 s₁ binding e now).id = e.workflowId sha256 := by
        unfold hookItem
        cases hget : s₁.workflows.get? (e.workflowId sha256) with
        | none => rfl
        | some i => exact hothers _ _ hget
      have hid := hookNodes_id hnodes
      show item₂.id = _
      rw [hid, ← hfound]
      split <;> rfl
  -- a report has an item of its own
  | report binding r =>
    replace h : recordReport sha256 s binding r now = .ok s' := h
    unfold recordReport at h
    dsimp only at h
    obtain ⟨⟨⟩, -, h⟩ := bind_ok h
    obtain ⟨item₁, hnode, h⟩ := bind_ok h
    obtain rfl := Except.ok.inj h
    refine named_insert hnamed ?_
    show item₁.id = _
    rw [node_id hnode]
    unfold reportItem
    cases hget : s.workflows.get? (orchestraId sha256 binding) with
    | none => rfl
    | some i => exact hnamed _ _ hget

/-! ### What is written

Pruning and the limit on the file drop one workflow at a time, each time the first in some order;
what they leave is untouched. -/

/-- Where a map has entries, those of another one. -/
def Part (m' m : BTreeMap String Item) : Prop :=
  ∀ k i, m'.get? k = some i → m.get? k = some i

/-- What is left without one workflow is a part. -/
theorem part_erase (m : BTreeMap String Item) (key : String) : Part (m.erase key) m :=
  fun _ _ hi => (BTreeMap.get?_erase.mp hi).1

/-- A part of a part is a part. -/
theorem Part.trans {m m' m'' : BTreeMap String Item} (h : Part m'' m') (h' : Part m' m) :
    Part m'' m := fun k i hi => h' k i (h k i hi)

/-- A part of a well named map is well named. -/
theorem Named.part {m m' : BTreeMap String Item} (h : Named m) (hpart : Part m' m) : Named m' :=
  fun k i hi => h k i (hpart k i hi)

/-- The order in which workflows are dropped when there are too many. -/
def Item.age (item : Item) : ℤ ×ₗ String := toLex (item.updatedAt.toInt, item.id)

/-- The order in which they are dropped when their file is too large. -/
def Item.rank (item : Item) : Bool ×ₗ ℤ ×ₗ String := toLex (!terminal item.status, item.age)

/-- The workflows of a state, aged, but for those that ended long ago. -/
def State.retained (s : State) (now : Int64) : BTreeMap String Item :=
  (s.workflows.mapValues (Item.stale now)).retain fun _ v =>
    !terminal v.status || now - retainFor ≤ v.updatedAt

/-- **Why a workflow is dropped** when a state is written: it ended long ago; or there are too many
    with it, and none of them is older; or the file is too large with it, and no other comes
    before it. -/
inductive Dropped (S : Serde) (s : State) (t : Civil.Instant) (key : String) (item : Item) : Prop
  | old : terminal item.status = true → item.updatedAt < t.timestamp - retainFor →
      Dropped S s t key item
  | crowded (m : BTreeMap String Item) : Part m (s.retained t.timestamp) →
      maxWorkflows < m.length → m.get? key = some item →
      (∀ k v, m.get? k = some v → item.age ≤ v.age) → Dropped S s t key item
  | large (m : BTreeMap String Item) : Part m (s.stamped t).workflows →
      maxBytes < (State.text S { s.stamped t with workflows := m }).length →
      m.get? key = some item → (∀ k v, m.get? k = some v → item.rank ≤ v.rank) →
      Dropped S s t key item

/-- The workflow that goes is the one of its identifier. -/
theorem eq_of_erased {m : BTreeMap String Item} {v : Item} (hnamed : Named m) (hv : v ∈ m.values)
    (hitem : m.get? v.id = some item) : v = item := by
  obtain ⟨k, hk⟩ := BTreeMap.mem_values.mp hv
  rw [hnamed k v hk, hk] at hitem
  exact Option.some.inj hitem

/-- What is dropped first comes before all others. -/
theorem le_of_argmin {β : Type*} [LinearOrder β] {m : BTreeMap String Item} {f : Item → β}
    {v : Item} (hv : m.values.argmin f = some v) : ∀ k i, m.get? k = some i → f v ≤ f i :=
  fun k _ hi => List.le_of_mem_argmin (BTreeMap.mem_values.mpr ⟨k, hi⟩) hv

/-- The oldest are dropped and nothing else changes. -/
theorem part_dropOldest {fuel : ℕ} {m : BTreeMap String Item} : Part (dropOldest fuel m) m := by
  induction fuel generalizing m with
  | zero => exact fun _ _ hi => hi
  | succ fuel ih =>
    rw [dropOldest]
    split
    · split
      · exact fun _ _ hi => hi
      · exact ih.trans (part_erase m _)
    · exact fun _ _ hi => hi

/-- A workflow is left, or it was the oldest of too many. -/
theorem dropOldest_cases (fuel : ℕ) {m : BTreeMap String Item} (hnamed : Named m)
    (hitem : m.get? key = some item) : (dropOldest fuel m).get? key = some item ∨
      (dropOldest fuel m).get? key = none ∧ ∃ m', Part m' m ∧ maxWorkflows < m'.length ∧
        m'.get? key = some item ∧ ∀ k v, m'.get? k = some v → item.age ≤ v.age := by
  induction fuel generalizing m with
  | zero => exact .inl hitem
  | succ fuel ih =>
    rw [dropOldest]
    split
    · next hmany =>
      split
      · exact .inl hitem
      · next v hv =>
        by_cases hkey : v.id = key
        · subst hkey
          obtain rfl := eq_of_erased hnamed (List.argmin_mem hv) hitem
          refine .inr ⟨?_, m, fun _ _ hi => hi, hmany, hitem, le_of_argmin (f := Item.age) hv⟩
          rw [Option.eq_none_iff_forall_ne_some]
          intro i hi
          exact (BTreeMap.get?_erase.mp (part_dropOldest _ _ hi)).2 rfl
        · have hkept : (m.erase v.id).get? key = some item :=
            BTreeMap.get?_erase.mpr ⟨hitem, Ne.symm hkey⟩
          rcases ih (hnamed.part (part_erase m _)) hkept with hleft | ⟨hgone, m', hpart, hrest⟩
          · exact .inl hleft
          · exact .inr ⟨hgone, m', hpart.trans (part_erase m _), hrest⟩
    · exact .inl hitem

/-- What is written fits, and is a part of the state. -/
theorem part_bytesLoop {S : Serde} {fuel : ℕ} {raw : List UInt8}
    (h : s.bytesLoop S fuel = .ok (raw, s')) : raw = s'.text S ∧ raw.length ≤ maxBytes ∧
      Part s'.workflows s.workflows := by
  induction fuel generalizing s with
  | zero =>
    unfold State.bytesLoop at h
    split at h
    · next hfits =>
      cases h
      exact ⟨rfl, hfits, fun _ _ hi => hi⟩
    · split at h
      · cases h
      · cases h
  | succ fuel ih =>
    unfold State.bytesLoop at h
    split at h
    · next hfits =>
      cases h
      exact ⟨rfl, hfits, fun _ _ hi => hi⟩
    · split at h
      · cases h
      · obtain ⟨hraw, hfits, hpart⟩ := ih h
        exact ⟨hraw, hfits, hpart.trans (part_erase _ _)⟩

/-- A workflow is written, or it came first when the file was too large. -/
theorem bytesLoop_cases {S : Serde} {fuel : ℕ} {raw : List UInt8} (hnamed : Named s.workflows)
    (h : s.bytesLoop S fuel = .ok (raw, s')) (hitem : s.workflows.get? key = some item) :
    s'.workflows.get? key = some item ∨
      s'.workflows.get? key = none ∧ ∃ m, Part m s.workflows ∧
        maxBytes < (State.text S { s with workflows := m }).length ∧ m.get? key = some item ∧
        ∀ k v, m.get? k = some v → item.rank ≤ v.rank := by
  induction fuel generalizing s with
  | zero =>
    unfold State.bytesLoop at h
    split at h
    · cases h
      exact .inl hitem
    · split at h
      · cases h
      · cases h
  | succ fuel ih =>
    unfold State.bytesLoop at h
    split at h
    · cases h
      exact .inl hitem
    · next hlarge =>
      split at h
      · cases h
      · next v hv =>
        by_cases hkey : v.id = key
        · subst hkey
          obtain rfl := eq_of_erased hnamed (List.argmin_mem hv) hitem
          refine .inr ⟨?_, s.workflows, fun _ _ hi => hi, Nat.lt_of_not_le hlarge, hitem,
            le_of_argmin (f := Item.rank) hv⟩
          rw [Option.eq_none_iff_forall_ne_some]
          intro i hi
          exact (BTreeMap.get?_erase.mp ((part_bytesLoop h).2.2 _ _ hi)).2 rfl
        · have hkept : (s.workflows.erase v.id).get? key = some item :=
            BTreeMap.get?_erase.mpr ⟨hitem, Ne.symm hkey⟩
          rcases ih (hnamed.part (part_erase _ _)) h hkept with hleft | ⟨hgone, m', hpart, hrest⟩
          · exact .inl hleft
          · exact .inr ⟨hgone, m', hpart.trans (part_erase _ _), hrest⟩

/-- **What is written is read back**, and has every workflow of the state, aged, but for those that
    are dropped. -/
theorem written_cases {S : Serde} {t : Civil.Instant} {raw : List UInt8} (hserde : ReadsFiles S)
    (hnamed : Named s.workflows) (h : s.written S t = .ok raw) :
    ∃ s', read S raw = .ok s' ∧ ∀ key item, s.workflows.get? key = some item →
      s'.workflows.get? key = some (item.stale t.timestamp) ∨
        s'.workflows.get? key = none ∧ Dropped S s t key (item.stale t.timestamp) := by
  unfold State.written at h
  obtain ⟨⟨raw₁, s₁⟩, hbytes, h⟩ := bind_ok h
  obtain ⟨⟨⟩, hvalid, h⟩ := bind_ok h
  obtain rfl := Except.ok.inj h
  obtain ⟨rfl, hfits, hpart⟩ := part_bytesLoop hbytes
  refine ⟨s₁, read_text hserde (require_ok.mp hvalid) hfits, fun key item hitem => ?_⟩
  have haged : Named (s.workflows.mapValues (Item.stale t.timestamp)) :=
    named_mapValues hnamed fun i => stale_id i _
  have hretained : Part (s.retained t.timestamp) (s.workflows.mapValues (Item.stale t.timestamp)) :=
    fun _ _ hi => (BTreeMap.get?_retain.mp hi).1
  have hstale : (s.workflows.mapValues (Item.stale t.timestamp)).get? key =
      some (item.stale t.timestamp) := by
    rw [BTreeMap.get?_mapValues, hitem]
    rfl
  -- what pruning does not leave is not written either
  have hgone : (s.stamped t).workflows.get? key = none → s₁.workflows.get? key = none := by
    intro hnone
    rw [Option.eq_none_iff_forall_ne_some]
    intro i hi
    have hi' : (s.stamped t).workflows.get? key = some i := hpart key i hi
    rw [hnone] at hi'
    cases hi'
  by_cases hkept : (!terminal (item.stale t.timestamp).status ||
      decide (t.timestamp - retainFor ≤ (item.stale t.timestamp).updatedAt)) = true
  · have hthere : (s.retained t.timestamp).get? key = some (item.stale t.timestamp) :=
      BTreeMap.get?_retain.mpr ⟨hstale, hkept⟩
    rcases dropOldest_cases (s.retained t.timestamp).length
      (haged.part hretained) hthere with hleft | ⟨hnone, m, hm, hmany, hin, hfirst⟩
    · have hpruned : (s.stamped t).workflows.get? key = some (item.stale t.timestamp) := hleft
      have hnamed' : Named (s.stamped t).workflows :=
        (haged.part hretained).part part_dropOldest
      rcases bytesLoop_cases hnamed' hbytes hpruned with hwritten | ⟨hnone, m, hm, hlarge, hrest⟩
      · exact .inl hwritten
      · exact .inr ⟨hnone, .large m hm hlarge hrest.1 hrest.2⟩
    · exact .inr ⟨hgone hnone, .crowded m hm hmany hin hfirst⟩
  · refine .inr ⟨hgone ?_, ?_⟩
    · rw [Option.eq_none_iff_forall_ne_some]
      intro i hi
      have hi' : (s.retained t.timestamp).get? key = some i := part_dropOldest key i hi
      obtain ⟨hsame, htrue⟩ := BTreeMap.get?_retain.mp hi'
      rw [hstale] at hsame
      obtain rfl := Option.some.inj hsame
      exact hkept htrue
    · rw [Bool.or_eq_true, not_or, decide_eq_true_eq, Int64.not_le, Bool.not_eq_true,
        Bool.not_eq_false'] at hkept
      exact .old hkept.1 hkept.2

end

/-! ### Runs

A run is followed as long as the workflow is there; when it is dropped, the step that did so is
named. -/

section

variable {S : Serde} {sha256 : List UInt8 → Vector UInt8 32} {key : String} {item : Item}
  {file : Option (List UInt8)} {step : Step} {steps : List Step} {P : Item → Prop}

/-- The file has this workflow. -/
def Has (S : Serde) (key : String) (P : Item → Prop) (file : Option (List UInt8)) : Prop :=
  ∃ s item, load S file = .ok s ∧ s.workflows.get? key = some item ∧ P item

/-- The step drops the workflow: its call leaves it as it should be, and pruning drops it. -/
def Step.Drops (S : Serde) (sha256 : List UInt8 → Vector UInt8 32) (key : String) (P : Item → Prop)
    (file : Option (List UInt8)) (step : Step) : Prop :=
  ∃ s s₁ item s₂, load S file = .ok s ∧ step.call.action sha256 s step.now.timestamp = .ok s₁ ∧
    s₁.workflows.get? key = some item ∧ P item ∧
    Dropped S s₁ step.now key (item.stale step.now.timestamp) ∧
    load S (step.next S sha256 file) = .ok s₂ ∧ s₂.workflows.get? key = none

/-- The workflow was dropped in one of the steps. -/
def DroppedIn (S : Serde) (sha256 : List UInt8 → Vector UInt8 32) (key : String) (P : Item → Prop)
    (file : Option (List UInt8)) (steps : List Step) : Prop :=
  ∃ before step after, steps = before ++ step :: after ∧
    step.Drops S sha256 key P (before.foldl (Step.next S sha256) file)

/-- A state that was read has its workflows and their nodes under their identifiers. -/
theorem load_keyed {s : State} (h : load S file = .ok s) :
    ∀ k i, s.workflows.get? k = some i → i.id = k ∧ Keyed i.nodes := by
  cases file with
  | none =>
    obtain rfl := Except.ok.inj h
    intro k i hi
    cases hi
  | some raw =>
    unfold load read at h
    obtain ⟨⟨⟩, -, h⟩ := bind_ok h
    obtain ⟨s₁, -, h⟩ := bind_ok h
    obtain ⟨⟨⟩, hvalid, h⟩ := bind_ok h
    obtain rfl := Except.ok.inj h
    have hall := require_ok.mp hvalid
    unfold State.valid at hall
    rw [Bool.and_eq_true, List.all_eq_true] at hall
    intro k i hi
    have hitem := hall.2 (k, i) (BTreeMap.mem_entries.mpr hi)
    unfold Item.valid at hitem
    simp only [Bool.and_eq_true, decide_eq_true_eq, List.all_eq_true] at hitem
    refine ⟨hitem.1.1.1.1.1.1.1.1.1.symm, fun n node hn => ?_⟩
    have hnode := hitem.2 (n, node) (BTreeMap.mem_entries.mpr hn)
    unfold Node.valid at hnode
    simp only [Bool.and_eq_true, decide_eq_true_eq] at hnode
    exact hnode.1.1.1.1.1.1.1.symm

/-- A call preserves this of the workflow. -/
def Call.Preserves (sha256 : List UInt8 → Vector UInt8 32) (key : String) (P : Item → Prop)
    (call : Call) : Prop :=
  ∀ s s' item now, call.action sha256 s now = .ok s' →
    (∀ k i, s.workflows.get? k = some i → i.id = k ∧ Keyed i.nodes) →
    s.workflows.get? key = some item → P item →
    ∃ item', s'.workflows.get? key = some item' ∧ P item'

/-- **One step** preserves what its call and the aging of the workflow preserve, or it drops the
    workflow. -/
theorem next_item (hserde : ReadsFiles S) (hcall : step.call.Preserves sha256 key P)
    (hstale : ∀ item, P item → P (item.stale step.now.timestamp)) (h : Has S key P file) :
    Has S key P (step.next S sha256 file) ∨ step.Drops S sha256 key P file := by
  obtain ⟨s, item, hload, hitem, hP⟩ := h
  have hsame : Has S key P file := ⟨s, item, hload, hitem, hP⟩
  cases hrecord : step.record S sha256 file with
  | error e =>
    left
    unfold Step.next
    rw [hrecord]
    exact hsame
  | ok raw =>
    have hkeyed := load_keyed hload
    have hsteps := hrecord
    unfold Step.record update at hsteps
    obtain ⟨⟨⟩, -, hsteps⟩ := bind_ok hsteps
    obtain ⟨⟨⟩, -, hsteps⟩ := bind_ok hsteps
    rw [ok_bind hload] at hsteps
    -- the action keeps the item, and the write drops it only by the rules of pruning
    obtain ⟨s₁, haction, hwritten⟩ := bind_ok hsteps
    obtain ⟨item₁, hitem₁, hP₁⟩ := hcall s s₁ item _ haction hkeyed hitem hP
    obtain ⟨s₂, hread, hcases⟩ :=
      written_cases hserde (action_named haction fun k i hi => (hkeyed k i hi).1) hwritten
    -- a write that failed before its commit leaves the old file
    have hnext : step.next S sha256 file = some raw ∨ step.next S sha256 file = file := by
      unfold Step.next
      rw [hrecord]
      cases step.outcome with
      | done => exact .inl rfl
      | beforeCommit => exact .inr rfl
      | afterCommit => exact .inl rfl
    rcases hnext with hnext | hnext
    · have hload₂ : load S (step.next S sha256 file) = .ok s₂ := by
        rw [hnext]
        exact hread
      rcases hcases key item₁ hitem₁ with hleft | ⟨hgone, hdropped⟩
      · exact .inl ⟨s₂, _, hload₂, hleft, hstale item₁ hP₁⟩
      · exact .inr ⟨s, s₁, item₁, s₂, hload, haction, hitem₁, hP₁, hdropped, hload₂, hgone⟩
    · rw [hnext]
      exact .inl hsame

/-- **Every run** preserves it, until the workflow is dropped. -/
theorem run_item (hserde : ReadsFiles S)
    (hcalls : ∀ step ∈ steps, step.call.Preserves sha256 key P)
    (hstale : ∀ step ∈ steps, ∀ item, P item → P (item.stale step.now.timestamp))
    (h : Has S key P file) :
    Has S key P (steps.foldl (Step.next S sha256) file) ∨
      DroppedIn S sha256 key P file steps := by
  induction steps generalizing file with
  | nil => exact .inl h
  | cons step steps ih =>
    have hhead := List.mem_cons_self (a := step) (l := steps)
    rcases next_item hserde (hcalls step hhead) (hstale step hhead) h with hnext | hdrops
    · rcases ih (fun a ha => hcalls a (List.mem_cons_of_mem _ ha))
        (fun a ha => hstale a (List.mem_cons_of_mem _ ha)) hnext with
        hend | ⟨before, last, after, rfl, hend⟩
      · exact .inl hend
      · exact .inr ⟨step :: before, last, after, rfl, hend⟩
    · exact .inr ⟨[], step, steps, rfl, hdrops⟩

/-- The workflow, or what it is after it was aged during one of these steps. -/
def Aged (item : Item) (steps : List Step) (item' : Item) : Prop :=
  item' = item ∨ ∃ step ∈ steps, item' = item.stale step.now.timestamp

/-- A workflow is aged once: it is not active afterwards. -/
theorem stale_cases (item : Item) (t : Int64) :
    item.stale t = item ∨ ∀ t', (item.stale t).stale t' = item.stale t := by
  unfold Item.stale
  split
  · right
    intro t'
    rw [if_neg]
    intro hcond
    rw [Bool.and_eq_true] at hcond
    cases hcond.1
  · exact .inl rfl

/-- One more aging by one of the calls. -/
theorem aged_stale {item' : Item} (h : Aged item steps item') (hstep : step ∈ steps) :
    Aged item steps (item'.stale step.now.timestamp) := by
  rcases h with rfl | ⟨first, hfirst, rfl⟩
  · exact .inr ⟨step, hstep, rfl⟩
  · rcases stale_cases item first.now.timestamp with hsame | honce
    · rw [hsame]
      exact .inr ⟨step, hstep, rfl⟩
    · rw [honce]
      exact .inr ⟨first, hfirst, rfl⟩

/-- A call that is not about a workflow is not about what it has become by aging. -/
theorem touches_stale {call : Call} {t : Int64} (h : call.Touches sha256 key (item.stale t)) :
    call.Touches sha256 key item := by
  unfold Item.stale at h
  split at h
  · cases call with
    | hook binding e =>
      obtain ⟨hbound, hsession, hwhy⟩ := h
      refine ⟨hbound, hsession, hwhy.imp_right fun hwhy => hwhy.imp_right fun hactive => ?_⟩
      cases hactive.2.2
    | report binding r => exact h
  · exact h

/-- **A workflow that no call is about is only aged or dropped.**  A file of the store has a
    workflow; whatever calls are made, at whatever times and however their writes end, as long as no
    call is about that workflow it stays as it is, or as it was aged by one of the calls, until
    pruning drops it: because it ended long ago, or is the oldest of too many, or comes first in a
    file that is too large. -/
theorem untouched_run (hserde : ReadsFiles S)
    (hcalls : ∀ step ∈ steps, ¬ step.call.Touches sha256 key item)
    (h : Has S key (fun i => i = item) file) :
    Has S key (Aged item steps) (steps.foldl (Step.next S sha256) file) ∨
      DroppedIn S sha256 key (Aged item steps) file steps := by
  obtain ⟨s, item', hload, hitem, rfl⟩ := h
  refine run_item hserde ?_ ?_ ⟨s, item', hload, hitem, .inl rfl⟩
  · intro step hstep s s' i now haction hkeyed hi haged
    have hnot : ¬ step.call.Touches sha256 key i := by
      intro htouches
      apply hcalls step hstep
      rcases haged with rfl | ⟨first, -, rfl⟩
      · exact htouches
      · exact touches_stale htouches
    exact ⟨i, action_frame haction hi hnot, haged⟩
  · intro step hstep i haged
    exact aged_stale haged hstep

/-- **A turn that has ended stays ended until its next prompt.**  A file of the store has a workflow
    whose root has ended (with `Stop`, or by an interruption); whatever calls are made, at whatever
    times and however their writes end, as long as none is a prompt of that turn the root has ended
    in the file, until pruning drops the workflow.  Late events of the turn do not revive it. -/
theorem ended_run {agent : String} (hserde : ReadsFiles S)
    (hcalls : ∀ step ∈ steps, ¬ step.call.Prompts sha256 key)
    (h : Has S key (Item.Ended (hash sha256 "root-" agent)) file) :
    Has S key (Item.Ended (hash sha256 "root-" agent)) (steps.foldl (Step.next S sha256) file) ∨
      DroppedIn S sha256 key (Item.Ended (hash sha256 "root-" agent)) file steps := by
  refine run_item hserde ?_ ?_ h
  · intro step hstep s s' i now haction hkeyed hi hended
    exact action_ended haction (fun k i hi => (hkeyed k i hi).2) hi (hcalls step hstep) hended
  · intro step _ i hended
    exact ended_stale hended

end

/-! ### A turn that has ended -/

namespace EndedExample

open HelperExample

/-- The root of the agent `s1`. -/
def root : String := hash sha256 "root-" "s1"

/-- The turn `t1` after it has ended. -/
def ended : Item :=
  { Item.new (hash sha256 "wf-" (pairText "s1" "t1")) binding "codex-hook" 1767225600 with
    sessionId := hash sha256 "cx-" "s1"
    turnId := hash sha256 "turn-" "t1"
    status := "completed"
    endedAt := 1767225600
    nodes := BTreeMap.empty.insert root
      (Item.enter (Item.newNode root "" "root" "codex" 1767225600) "completed" 1767225600) }

/-- The store with this turn. -/
def stored : State := ⟨1, BTreeMap.empty.insert ended.id ended, ""⟩

def file : Option (List UInt8) := some (stored.text Json.Compact.serde)

/-- The file of the example is read as its state. -/
theorem load_file : load Json.Compact.serde file = .ok stored :=
  read_text compact_reads (by decide +kernel) (by decide +kernel)

/-- A second is positive. -/
theorem second_pos : 0 < 1000000000000000000 := by decide

/-- When the calls come. -/
def later : Civil.Instant := instant ⟨0, second_pos⟩

/-- A tool of the turn that ends late, and the end of its agent. -/
def late : List Step :=
  [⟨.hook binding (event "PostToolUse"), later, .done⟩,
    ⟨.hook binding (event "SessionEnd"), later, .done⟩]

/-- The end of the same agent in another tmux session. -/
def elsewhere : List Step := [⟨.hook ⟨"$2", 1700000001⟩ (event "SessionEnd"), later, .done⟩]

/-- The store has the turn. -/
def kept (file : Option (List UInt8)) : Bool :=
  match load Json.Compact.serde file with
  | .ok s => (s.workflows.get? ended.id).isSome
  | .error _ => false

/-- Where the turn is in the store after every step, no step has dropped it. -/
theorem not_droppedIn {P : Item → Prop} {steps : List Step} {file : Option (List UInt8)}
    (hkept : ∀ n < steps.length,
      kept ((steps.take (n + 1)).foldl (Step.next Json.Compact.serde sha256) file) = true) :
    ¬ DroppedIn Json.Compact.serde sha256 ended.id P file steps := by
  rintro ⟨before, step, after, rfl, s, s₁, item, s₂, -, -, -, -, -, hload, hnone⟩
  have hthere := hkept before.length (by rw [List.length_append, List.length_cons]; omega)
  have htake : (before ++ step :: after).take (before.length + 1) = before ++ [step] := by
    rw [List.take_length_add_append]
    rfl
  rw [htake, List.foldl_append] at hthere
  have hthere : kept (step.next Json.Compact.serde sha256
      (before.foldl (Step.next Json.Compact.serde sha256) file)) = true := hthere
  unfold kept at hthere
  rw [hload] at hthere
  dsimp only at hthere
  rw [hnone] at hthere
  cases hthere

theorem still_ended : Has Json.Compact.serde ended.id (Item.Ended root)
    (late.foldl (Step.next Json.Compact.serde sha256) file) := by
  have hended : ended.Ended root := ⟨_, BTreeMap.get?_insert_self, rfl, rfl, by decide⟩
  have hcalls : ∀ step ∈ late, ¬ step.call.Prompts sha256 ended.id := by
    intro step hstep hprompt
    rcases List.mem_cons.mp hstep with rfl | hstep
    · exact absurd hprompt.1 (by decide)
    · rcases List.mem_singleton.mp hstep with rfl
      exact absurd hprompt.1 (by decide)
  exact (ended_run compact_reads hcalls
    ⟨stored, ended, load_file, BTreeMap.get?_insert_self, hended⟩).resolve_right
    (not_droppedIn (by decide +kernel))

theorem still_there : Has Json.Compact.serde ended.id (Aged ended elsewhere)
    (elsewhere.foldl (Step.next Json.Compact.serde sha256) file) := by
  have hcalls : ∀ step ∈ elsewhere, ¬ step.call.Touches sha256 ended.id ended := by
    intro step hstep htouches
    rcases List.mem_singleton.mp hstep with rfl
    exact absurd htouches.1 (by decide)
  exact (untouched_run compact_reads hcalls
    ⟨stored, ended, load_file, BTreeMap.get?_insert_self, rfl⟩).resolve_right
    (not_droppedIn (by decide +kernel))

end EndedExample

end Hmux.Workflow
