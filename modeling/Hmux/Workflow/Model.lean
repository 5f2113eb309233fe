import Hmux.Lib.BTreeMap
import Hmux.Lib.Machine
import Hmux.Model.SafeText
import Hmux.Model.Session
import Mathlib.Data.List.MinMax
import Mathlib.Data.Prod.Lex

namespace Hmux.Workflow

open Lib

/-!
# Workflows of a session

What the hooks of a coding agent report about its turns: a workflow for every turn, with a node for
the agent itself and one for each of its helpers.  Identifiers are kept as truncated digests only.
The state is one JSON file, which is checked as a whole when it is read and before it is written.
-/

/-- `MAX_BYTES`. -/
def maxBytes : ℕ := 16 <<< 20

/-- `MAX_WORKFLOWS`. -/
def maxWorkflows : ℕ := 1024

/-- `MAX_NODES`. -/
def maxNodes : ℕ := 128

/-- `STALE`. -/
def staleAfter : Int64 := 2 * 3600

/-- `RETAIN`. -/
def retainFor : Int64 := 7 * 86400

/-- `Error`. -/
inductive Error
  | invalid | unavailable | busy | cancelled
  deriving DecidableEq

/-- `HookEvent`. -/
structure HookEvent where
  sessionId : String
  turnId : String
  hookEventName : String
  model : String
  agentId : String
  agentType : String
  toolName : String
  deriving DecidableEq

/-- `Report`. -/
structure Report where
  taskId : String
  status : String
  deriving DecidableEq

/-- `Node`. -/
structure Node where
  id : String
  parentId : String
  nodeType : String
  provider : String
  status : String
  startedAt : Int64
  updatedAt : Int64
  endedAt : Int64
  deriving DecidableEq, Inhabited

/-- `Item`. -/
structure Item where
  id : String
  tmuxSessionId : String
  tmuxCreatedAt : Int64
  source : String
  sessionId : String
  turnId : String
  status : String
  model : String
  startedAt : Int64
  updatedAt : Int64
  endedAt : Int64
  nodes : BTreeMap String Node
  deriving Inhabited

/-- `State`. -/
structure State where
  version : Int32
  workflows : BTreeMap String Item
  updatedAt : String

/-! ### Checks

The checks of the source, on hooks before they are used and on the state before it is written. -/

/-- `active`. -/
def active (s : String) : Bool := s = "running" || s = "waiting_approval" || s = "waiting_input"

/-- `terminal`. -/
def terminal (s : String) : Bool :=
  s = "completed" || s = "failed" || s = "interrupted" || s = "stale"

/-- `opaque`. -/
def isOpaque (s : String) (max : ℕ) : Bool :=
  s ≠ "" && (bytes s).length ≤ max && Usage.trim s.toList = s.toList && isSafe s max

/-- `HookEvent::validate`. -/
def HookEvent.validate (e : HookEvent) : Bool :=
  isOpaque e.sessionId 512 &&
    (e.hookEventName = "SessionEnd" || isOpaque e.turnId 512) &&
    (bytes e.model).length ≤ 256 && (bytes e.agentType).length ≤ 256 &&
    (bytes e.toolName).length ≤ 256 &&
    ["UserPromptSubmit", "SubagentStart", "SubagentStop", "PermissionRequest", "PreToolUse",
      "PostToolUse", "Stop", "SessionEnd"].contains e.hookEventName &&
    (!(e.hookEventName = "SubagentStart" || e.hookEventName = "SubagentStop") ||
      isOpaque e.agentId 512)

/-- `hashed`: one of these prefixes and 32 hexadecimal digits. -/
def hashed (s : String) (prefixes : List String) : Bool :=
  prefixes.any fun p =>
    (bytes p).isPrefixOf (bytes s) && ((bytes s).drop (bytes p).length).length = 32 &&
      ((bytes s).drop (bytes p).length).all isLowerHex

/-- `binding_valid`. -/
def bindingValid (b : SessionIdentity) : Bool := validateSessionId b.id && 0 < b.createdAt

/-- A node of an item passes `State::valid`. -/
def Node.valid (nodes : BTreeMap String Node) (id : String) (node : Node) : Bool :=
  id = node.id && hashed id ["root-", "agent-", "task-"] &&
    (node.parentId = "" ||
      (hashed node.parentId ["root-", "agent-"] && nodes.contains node.parentId)) &&
    (active node.status || terminal node.status) && 0 < node.startedAt &&
    node.startedAt ≤ node.updatedAt && isSafe node.nodeType 128 && isSafe node.provider 64

/-- The source of an item and the digests that go with it. -/
def Item.sourceValid (item : Item) : Bool :=
  if item.source = "codex-hook" then hashed item.sessionId ["cx-"] && hashed item.turnId ["turn-"]
  else if item.source = "codex-orchestra" then item.sessionId = "" && item.turnId = ""
  else false

/-- An item passes `State::valid`. -/
def Item.valid (id : String) (item : Item) : Bool :=
  id = item.id && hashed id ["wf-", "orch-"] &&
    bindingValid ⟨item.tmuxSessionId, item.tmuxCreatedAt⟩ && item.sourceValid &&
    isSafe item.model 128 && (active item.status || terminal item.status) && 0 < item.startedAt &&
    item.startedAt ≤ item.updatedAt && item.nodes.length ≤ maxNodes &&
    item.nodes.entries.all fun e => e.2.valid item.nodes e.1

/-- `State::valid`. -/
def State.valid (s : State) : Bool :=
  s.version = 1 && s.workflows.length ≤ maxWorkflows &&
    s.workflows.entries.all fun e => e.2.valid e.1

/-! ### As JSON

A state is written with all of its fields, and read back as it was. -/

/-- The fields of a node. -/
def Node.fields : Fields Node :=
  ((Fields.text "id").and ((Fields.omitEmpty "parent_id").and ((Fields.text "type").and
    ((Fields.text "provider").and ((Fields.text "status").and ((Fields.number "started_at").and
      ((Fields.number "updated_at").and (Fields.omitZero "ended_at")))))))).map
    (fun (id, parentId, nodeType, provider, status, startedAt, updatedAt, endedAt) =>
      { id, parentId, nodeType, provider, status, startedAt, updatedAt, endedAt })
    (fun n => (n.id, n.parentId, n.nodeType, n.provider, n.status, n.startedAt, n.updatedAt,
      n.endedAt))

def Node.codec : Codec Node := .object Node.fields

/-- The fields of an item. -/
def Item.fields : Fields Item :=
  ((Fields.text "id").and ((Fields.text "tmux_session_id").and
    ((Fields.number "tmux_created_at").and
    ((Fields.text "source").and ((Fields.omitEmpty "session_id").and
      ((Fields.omitEmpty "turn_id").and ((Fields.text "status").and ((Fields.omitEmpty "model").and
        ((Fields.number "started_at").and ((Fields.number "updated_at").and
          ((Fields.omitZero "ended_at").and
            (Fields.defaulted "nodes" Node.codec.btreeMap .empty)))))))))))).map
    (fun (id, tmuxSessionId, tmuxCreatedAt, source, sessionId, turnId, status, model, startedAt,
        updatedAt, endedAt, nodes) =>
      { id, tmuxSessionId, tmuxCreatedAt, source, sessionId, turnId, status, model, startedAt,
        updatedAt, endedAt, nodes })
    (fun i => (i.id, i.tmuxSessionId, i.tmuxCreatedAt, i.source, i.sessionId, i.turnId, i.status,
      i.model, i.startedAt, i.updatedAt, i.endedAt, i.nodes))

def Item.codec : Codec Item := .object Item.fields

/-- The fields of the state. -/
def State.fields : Fields State :=
  ((Fields.defaulted "version" .int32 0).and
    ((Fields.defaulted "workflows" Item.codec.btreeMap .empty).and (Fields.text "updated_at"))).map
    (fun (version, workflows, updatedAt) => { version, workflows, updatedAt })
    (fun s => (s.version, s.workflows, s.updatedAt))

def State.codec : Codec State := .object State.fields

theorem Node.codec_reads (n : Node) : Node.codec.Reads n := by
  refine (Codec.object_reads (by decide)).mpr (Fields.map_reads rfl ?_)
  simp

theorem Item.codec_reads (i : Item) : Item.codec.Reads i := by
  have hnodes : Node.codec.btreeMap.Reads i.nodes :=
    Codec.btreeMap_reads fun n _ => Node.codec_reads n
  refine (Codec.object_reads (by decide)).mpr (Fields.map_reads rfl ?_)
  simp [hnodes]

/-- **Every state is read back** from its JSON. -/
theorem State.codec_reads (s : State) : State.codec.Reads s := by
  have hitems : Item.codec.btreeMap.Reads s.workflows :=
    Codec.btreeMap_reads fun i _ => Item.codec_reads i
  refine (Codec.object_reads (by decide)).mpr (Fields.map_reads rfl ?_)
  simp [hitems]

end Hmux.Workflow
