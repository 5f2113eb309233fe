import Hmux.Lib.AtomicFile
import Hmux.Lib.Check
import Hmux.Lib.Civil
import Hmux.Workflow.Model

namespace Hmux.Workflow

open Lib

/-!
# The store of workflows

A hook or a report finds its workflow, moves the nodes it is about, and the state is pruned, written
and checked.  A workflow holds 128 nodes: a new one takes the place of the oldest that has ended.
-/

/-! ### Identifiers

An identifier is a prefix and half of a SHA-256 digest. -/

section

variable (sha256 : List UInt8 → Vector UInt8 32)

/-- What `hash` takes the digest of. -/
def hashInput (kind value : String) : String := kind ++ "\x00" ++ value

/-- `hash`: the first 16 bytes of a digest in hexadecimal. -/
def hash (kind value : String) : String :=
  kind ++ String.ofList (hexOf ((sha256 (bytes (hashInput kind value))).toList.take 16))

/-- The two parts of an identifier. -/
def pairText (a b : String) : String := a ++ "\x00" ++ b

end

/-! ### Items

The operations on the nodes of one workflow. -/

/-- `status`. -/
def status (values : List String) : String :=
  (["waiting_approval", "waiting_input", "running", "failed", "stale", "interrupted"].find?
    values.contains).getD "completed"

namespace Item

/-- `Item::new`. -/
def new (id : String) (binding : SessionIdentity) (source : String) (now : Int64) : Item where
  id := id
  tmuxSessionId := binding.id
  tmuxCreatedAt := binding.createdAt
  source := source
  sessionId := ""
  turnId := ""
  status := "running"
  model := ""
  startedAt := now
  updatedAt := now
  endedAt := 0
  nodes := .empty

/-- `Item::matches`. -/
def isBound (item : Item) (binding : SessionIdentity) : Bool :=
  item.tmuxSessionId = binding.id && item.tmuxCreatedAt = binding.createdAt

/-- A node that may make room: it has ended, it is not the root and it is not a parent. -/
def evictable (nodes : BTreeMap String Node) (node : Node) : Bool :=
  terminal node.status && node.nodeType ≠ "root" &&
    !nodes.values.any fun n => n.parentId = node.id

/-- Times of updates come before names. -/
instance : Preorder (ℤ ×ₗ String) := (Prod.Lex.instLinearOrder ℤ String).toPreorder

/-- What has ended comes before what is active. -/
instance : Preorder (Bool ×ₗ ℤ ×ₗ String) :=
  (Prod.Lex.instLinearOrder Bool (ℤ ×ₗ String)).toPreorder

/-- The node that makes room: the one that was touched first. -/
def evicted (nodes : BTreeMap String Node) : Option Node :=
  (nodes.values.filter (evictable nodes)).argmin fun v => toLex (v.updatedAt.toInt, v.id)

/-- The nodes with room for this one. -/
def makeRoom (nodes : BTreeMap String Node) (id : String) : Except Error (BTreeMap String Node) :=
  if !nodes.contains id && maxNodes ≤ nodes.length then
    match evicted nodes with
    | none => .error .invalid
    | some v => .ok (nodes.erase v.id)
  else .ok nodes

/-- A node that has no state yet. -/
def newNode (id parent kind provider : String) (now : Int64) : Node where
  id := id
  parentId := parent
  nodeType := kind
  provider := provider
  status := ""
  startedAt := now
  updatedAt := 0
  endedAt := 0

/-- A node comes into a state. -/
def enter (node : Node) (state : String) (now : Int64) : Node :=
  { node with status := state, updatedAt := now, endedAt := if terminal state then now else 0 }

/-- `Item::node`. -/
def node (item : Item) (id parent kind provider state : String) (now : Int64) (force : Bool) :
    Except Error Item := do
  let nodes ← makeRoom item.nodes id
  let node := (nodes.get? id).getD (newNode id parent kind provider now)
  if !force && terminal node.status && node.status ≠ "stale" then
    return { item with nodes }
  return { item with nodes := nodes.insert id (enter node state now), updatedAt := now }

/-- `Item::refresh`. -/
def refresh (item : Item) (now : Int64) : Item :=
  let state := Workflow.status (item.nodes.values.map (·.status))
  { item with status := state, updatedAt := now, endedAt := if terminal state then now else 0 }

/-- A node that is still active is interrupted, unless it is `kept`. -/
def interruptNode (kept : Option String) (now : Int64) (n : Node) : Node :=
  if some n.id ≠ kept && active n.status then
    { n with status := "interrupted", updatedAt := now, endedAt := now }
  else n

/-- `Item::interrupt`. -/
def interrupt (item : Item) (now : Int64) : Item :=
  refresh { item with nodes := item.nodes.mapValues (interruptNode none now) } now

end Item

/-! ### Hooks and reports

What a call does to the state, before it is pruned. -/

section

variable (sha256 : List UInt8 → Vector UInt8 32)

/-- The identifier of the turn of an event. -/
def HookEvent.workflowId (e : HookEvent) : String :=
  hash sha256 "wf-" (pairText e.sessionId e.turnId)

/-- The identifier of the agent of an event. -/
def HookEvent.rootId (e : HookEvent) : String := hash sha256 "root-" e.sessionId

/-- What the tool of an event waits for. -/
def toolState (toolName : String) : String :=
  let name := String.ofList ((Usage.trim toolName.toList).map Usage.toAsciiLowercase)
  if ["request_user_input", "askuserquestion", "ask_user_question"].contains name then
    "waiting_input"
  else "running"

/-- What an event does to the nodes of its workflow. -/
def hookNodes (item : Item) (e : HookEvent) (now : Int64) : Except Error Item :=
  let root := e.rootId sha256
  match e.hookEventName with
  | "UserPromptSubmit" => item.node root "" "root" "codex" "running" now true
  | "SubagentStart" | "SubagentStop" => do
    let item ← item.node root "" "root" "codex" "running" now false
    let kind := safeText e.agentType 128
    item.node (hash sha256 "agent-" e.agentId) root
      (if kind = "" then "subagent" else kind) "native"
      (if e.hookEventName = "SubagentStart" then "running" else "completed") now true
  | "PermissionRequest" => item.node root "" "root" "codex" "waiting_approval" now false
  | "PreToolUse" => item.node root "" "root" "codex" (toolState e.toolName) now false
  | "PostToolUse" => item.node root "" "root" "codex" "running" now false
  | "Stop" => do
    let item ← item.node root "" "root" "codex" "completed" now true
    return { item with nodes := item.nodes.mapValues (Item.interruptNode (some root) now) }
  | _ => .error .invalid

/-- The workflow of an event: the one that is there, or a new one. -/
def hookItem (s : State) (binding : SessionIdentity) (e : HookEvent) (now : Int64) : Item :=
  (s.workflows.get? (e.workflowId sha256)).getD
    { Item.new (e.workflowId sha256) binding "codex-hook" now with
      sessionId := hash sha256 "cx-" e.sessionId
      turnId := hash sha256 "turn-" e.turnId }

/-- A new prompt interrupts the other turns of the same agent. -/
def interruptOthers (s : State) (binding : SessionIdentity) (e : HookEvent) (now : Int64) : State :=
  { s with workflows := s.workflows.mapValues fun item =>
      if item.id ≠ e.workflowId sha256 && item.source = "codex-hook" &&
          item.sessionId = hash sha256 "cx-" e.sessionId && item.isBound binding &&
          active item.status then
        item.interrupt now
      else item }

/-- The end of an agent interrupts its turns. -/
def interruptAll (s : State) (binding : SessionIdentity) (e : HookEvent) (now : Int64) : State :=
  { s with workflows := s.workflows.mapValues fun item =>
      if item.isBound binding && item.sessionId = hash sha256 "cx-" e.sessionId then
        item.interrupt now
      else item }

/-- `record_hook`. -/
def recordHook (s : State) (binding : SessionIdentity) (e : HookEvent) (now : Int64) :
    Except Error State := do
  if e.hookEventName = "SessionEnd" then
    return interruptAll sha256 s binding e now
  let s := if e.hookEventName = "UserPromptSubmit" then interruptOthers sha256 s binding e
    now else s
  let item := hookItem sha256 s binding e now
  require (item.isBound binding && item.source = "codex-hook" &&
    item.sessionId = hash sha256 "cx-" e.sessionId && item.turnId = hash sha256 "turn-" e.turnId)
    Error.invalid
  let model := safeText e.model 128
  let item := if model = "" then item else { item with model }
  let item ← hookNodes sha256 item e now
  return { s with workflows := s.workflows.insert (e.workflowId sha256) (item.refresh now) }

/-- The identifier of the tasks of a session. -/
def orchestraId (binding : SessionIdentity) : String :=
  hash sha256 "orch-" (pairText binding.id (toString binding.createdAt))

/-- The workflow of the tasks of a session. -/
def reportItem (s : State) (binding : SessionIdentity) (now : Int64) : Item :=
  (s.workflows.get? (orchestraId sha256 binding)).getD
    (Item.new (orchestraId sha256 binding) binding "codex-orchestra" now)

/-- `record_report`. -/
def recordReport (s : State) (binding : SessionIdentity) (r : Report) (now : Int64) :
    Except Error State := do
  let item := reportItem sha256 s binding now
  require (item.isBound binding && item.source = "codex-orchestra") Error.invalid
  let item ← item.node (hash sha256 "task-" r.taskId) "" "task" "detached-codex" r.status now true
  return { s with workflows := s.workflows.insert (orchestraId sha256 binding) (item.refresh now) }

end

/-! ### Pruning and writing

Every update reads the file, acts, prunes, checks and writes. -/

/-- An item that nothing was heard of for long is stale, with its active nodes. -/
def Item.stale (now : Int64) (item : Item) : Item :=
  if active item.status && item.updatedAt < now - staleAfter then
    { item with
      nodes := item.nodes.mapValues fun n =>
        if active n.status then { n with status := "stale", endedAt := n.updatedAt } else n
      status := "stale"
      endedAt := item.updatedAt }
  else item

/-- The oldest items are dropped until no more than the maximum are left.  Each round drops one
    entry, so that the number of entries is fuel enough. -/
def dropOldest : ℕ → BTreeMap String Item → BTreeMap String Item
  | 0, m => m
  | fuel + 1, m =>
    if maxWorkflows < m.length then
      match m.values.argmin fun v => toLex (v.updatedAt.toInt, v.id) with
      | none => m
      | some v => dropOldest fuel (m.erase v.id)
    else m

/-- `State::prune`. -/
def State.prune (s : State) (now : Int64) : State :=
  let items := (s.workflows.mapValues (Item.stale now)).retain fun _ v =>
    !terminal v.status || now - retainFor ≤ v.updatedAt
  { s with workflows := dropOldest items.length items }

section

variable (S : Serde)

/-- The file of a state. -/
def State.text (s : State) : List UInt8 := S.text (State.codec.write s) ++ [10]

/-- `State::bytes`, with fuel for one round for each entry: a state whose file is too large gives up
    its oldest entries, those that have ended first. -/
def State.bytesLoop : ℕ → State → Except Error (List UInt8 × State)
  | fuel, s =>
    if (s.text S).length ≤ maxBytes then .ok (s.text S, s)
    else
      match s.workflows.values.argmin fun v =>
        toLex (!terminal v.status, toLex (v.updatedAt.toInt, v.id)) with
      | none => .error .invalid
      | some v =>
        match fuel with
        | 0 => .error .invalid
        | fuel + 1 => bytesLoop fuel { s with workflows := s.workflows.erase v.id }

/-- `State::bytes`. -/
def State.bytes (s : State) : Except Error (List UInt8 × State) := s.bytesLoop S s.workflows.length

/-- `Store::read` of a file that is there. -/
def read (raw : List UInt8) : Except Error State := do
  require (raw.length ≤ maxBytes) Error.unavailable
  let state ← okOr ((S.fromSlice raw).bind State.codec.read) Error.invalid
  require state.valid Error.invalid
  return state

/-- The state an update starts from. -/
def load : Option (List UInt8) → Except Error State
  | none => .ok ⟨1, .empty, ""⟩
  | some raw => read S raw

/-- What `Store::update` writes after its action. -/
def State.written (s : State) (now : Civil.Instant) : Except Error (List UInt8) := do
  let s := { s.prune now.timestamp with updatedAt := now.autoSi }
  let (raw, s) ← s.bytes S
  require s.valid Error.invalid
  return raw

/-- `Store::update`, up to the write. -/
def update (file : Option (List UInt8)) (now : Civil.Instant)
    (action : State → Int64 → Except Error State) : Except Error (List UInt8) := do
  require (1 ≤ now.timestamp) Error.invalid
  let state ← load S file
  let state ← action state now.timestamp
  state.written S now

end

end Hmux.Workflow
