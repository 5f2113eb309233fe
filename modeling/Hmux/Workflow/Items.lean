import Hmux.Workflow.Store

namespace Hmux.Workflow

open Lib

/-!
# What the nodes of a workflow keep

`Node.Ok` and `Item.Ok` are what `State::valid` asks of a node and an item, together with a bound on
their times: nothing in the store is newer than the clock, so that whatever is touched next ends up
no older than it started.  Every operation on an item keeps them.

* `makeRoom_ok` — a node that makes room is nobody's parent and no root;
* `node_ok` — a node comes into a state;
* `refresh_ok`, `interrupt_ok`, `stale_ok` — what is done to a whole item;
* `Keeps` — what every operation leaves as it is.
-/

variable {clock now : Int64} {nodes kept : BTreeMap String Node} {id k : String} {n : Node}

/-! ### Nodes

A node keeps its identifier, its parent and its kind, and its times do not run ahead of the clock.
-/

/-- A node may be in this state. -/
def known (s : String) : Bool := active s || terminal s

/-- A node as the store keeps it. -/
structure Node.Ok (nodes : BTreeMap String Node) (clock : Int64) (id : String) (n : Node) :
    Prop where
  key : id = n.id
  hashedId : hashed id ["root-", "agent-", "task-"] = true
  parent : n.parentId = "" ∨
    hashed n.parentId ["root-", "agent-"] = true ∧ nodes.contains n.parentId = true
  state : known n.status = true
  started : 0 < n.startedAt
  updated : n.startedAt ≤ n.updatedAt
  recent : n.updatedAt ≤ clock
  kind : isSafe n.nodeType 128 = true
  provider : isSafe n.provider 64 = true

namespace Node.Ok

/-- A node that is as it should be passes its check. -/
theorem valid (h : n.Ok nodes clock id) : n.valid nodes id = true := by
  have hparent : (decide (n.parentId = "") ||
      (hashed n.parentId ["root-", "agent-"] && nodes.contains n.parentId)) = true := by
    rw [Bool.or_eq_true, Bool.and_eq_true, decide_eq_true_eq]
    exact h.parent
  have hstate : (active n.status || terminal n.status) = true := h.state
  unfold Node.valid
  rw [decide_eq_true h.key, h.hashedId, hparent, hstate, decide_eq_true h.started,
    decide_eq_true h.updated, h.kind, h.provider]
  rfl

/-- Another map of nodes that still has the parent, and a later clock. -/
theorem mono (h : n.Ok nodes clock id) (hclock : clock ≤ now)
    (hparent : nodes.contains n.parentId = true → kept.contains n.parentId = true) :
    n.Ok kept now id :=
  { h with
    parent := h.parent.imp_right fun ⟨hhashed, hcontains⟩ => ⟨hhashed, hparent hcontains⟩
    recent := Int64.le_trans h.recent hclock }

/-- A node that comes into another state now. -/
theorem moved (h : n.Ok nodes clock id) (hclock : clock ≤ now) {state : String}
    (hstate : known state = true) (ended : Int64) :
    Node.Ok nodes now id { n with status := state, updatedAt := now, endedAt := ended } :=
  { h with
    state := hstate
    updated := Int64.le_trans h.updated (Int64.le_trans h.recent hclock)
    recent := Int64.le_refl now }

/-- A node that becomes stale keeps its time. -/
theorem stale (h : n.Ok nodes clock id) :
    Node.Ok nodes clock id { n with status := "stale", endedAt := n.updatedAt } :=
  { h with state := rfl }

/-- It stays so when it is interrupted. -/
theorem interruptNode (h : n.Ok nodes clock id) (hclock : clock ≤ now) (spared : Option String) :
    Node.Ok nodes now id (Item.interruptNode spared now n) := by
  unfold Item.interruptNode
  split
  · exact h.moved hclock rfl now
  · exact h.mono hclock fun hparent => hparent

end Node.Ok

/-- Every node of a map is as the store keeps it. -/
def NodesOk (clock : Int64) (nodes : BTreeMap String Node) : Prop :=
  ∀ k n, nodes.get? k = some n → n.Ok nodes clock k

/-- Changing nodes makes none and removes none. -/
theorem contains_mapValues {f : Node → Node} :
    (nodes.mapValues f).contains k = nodes.contains k := by
  unfold BTreeMap.contains
  rw [BTreeMap.get?_mapValues, Option.isSome_map]

/-- Nodes may be changed if each stays as it should be. -/
theorem mapValues_nodesOk {f : Node → Node}
    (hf : ∀ k n, nodes.get? k = some n → (f n).Ok nodes now k) :
    NodesOk now (nodes.mapValues f) := by
  intro k n hn
  rw [BTreeMap.get?_mapValues, Option.map_eq_some_iff] at hn
  obtain ⟨x, hx, rfl⟩ := hn
  refine (hf k x hx).mono (Int64.le_refl now) fun hparent => ?_
  rwa [contains_mapValues]

/-! ### Room for a node

Of the nodes that may go the oldest one goes; a root or a parent never does. -/

/-- The node that makes room is one of them. -/
theorem evicted_mem {v : Node} (h : Item.evicted nodes = some v) :
    v ∈ nodes.values ∧ Item.evictable nodes v = true := by
  have hmem : v ∈ nodes.values.filter (Item.evictable nodes) := List.argmin_mem h
  exact List.mem_filter.mp hmem

/-- A node that may make room has no children. -/
theorem evictable_childless {v : Node} (h : Item.evictable nodes v = true)
    (hn : nodes.get? k = some n) :
    n.parentId ≠ v.id := by
  intro heq
  unfold Item.evictable at h
  rw [Bool.and_eq_true, Bool.not_eq_true', List.any_eq_false] at h
  exact h.2 n (BTreeMap.mem_values.mpr ⟨k, hn⟩) (decide_eq_true heq)

/-- A root is never evicted. -/
theorem evictable_kind {v : Node} (h : Item.evictable nodes v = true) : v.nodeType ≠ "root" := by
  unfold Item.evictable at h
  rw [Bool.and_eq_true, Bool.and_eq_true, decide_eq_true_eq] at h
  exact h.1.2

/-- No node may make room. -/
def Full (nodes : BTreeMap String Node) : Prop :=
  nodes.length = maxNodes ∧ ∀ v ∈ nodes.values, Item.evictable nodes v = false

/-- The only failure is a map that is full. -/
theorem makeRoom_error {e : Error} (hsize : nodes.length ≤ maxNodes)
    (h : Item.makeRoom nodes id = .error e) : Full nodes ∧ nodes.get? id = none := by
  unfold Item.makeRoom at h
  split at h
  · rename_i hguard
    rw [Bool.and_eq_true, Bool.not_eq_true', decide_eq_true_eq] at hguard
    split at h
    · rename_i hnone
      refine ⟨⟨Nat.le_antisymm hsize hguard.2, fun v hv => ?_⟩,
        BTreeMap.contains_eq_false.mp hguard.1⟩
      have hempty := List.argmin_eq_none.mp hnone
      exact eq_false_of_ne_true fun hevict =>
        List.ne_nil_of_mem (List.mem_filter.mpr ⟨hv, hevict⟩) hempty
    · cases h
  · cases h

/-- **The nodes that are kept.**  They are as before, their parents with them, and there is room. -/
theorem makeRoom_ok (hnodes : NodesOk clock nodes) (hsize : nodes.length ≤ maxNodes)
    (h : Item.makeRoom nodes id = .ok kept) :
    NodesOk clock kept ∧ (∀ k n, nodes.get? k = some n → n.nodeType = "root" →
    kept.get? k = some n) ∧
      kept.get? id = nodes.get? id ∧ kept.length ≤ maxNodes ∧
      (kept.get? id = none → kept.length < maxNodes) := by
  unfold Item.makeRoom at h
  split at h
  · rename_i hguard
    rw [Bool.and_eq_true, Bool.not_eq_true', decide_eq_true_eq] at hguard
    have hnew := BTreeMap.contains_eq_false.mp hguard.1
    split at h
    -- full, and nothing may be evicted
    · cases h
    · rename_i v hv
      obtain ⟨hmem, hevict⟩ := evicted_mem hv
      obtain ⟨kv, hkv⟩ := BTreeMap.mem_values.mp hmem
      have hkey : kv = v.id := (hnodes kv v hkv).key
      obtain rfl := Except.ok.inj h
      have hlt : (nodes.erase v.id).length < nodes.length :=
        BTreeMap.length_erase_lt (BTreeMap.contains_iff.mpr ⟨v, hkey ▸ hkv⟩)
      -- the node that is evicted is another one
      have hsame : (nodes.erase v.id).get? id = nodes.get? id := by
        rw [hnew]
        apply Option.eq_none_iff_forall_ne_some.mpr
        intro n hn
        rw [(BTreeMap.get?_erase.mp hn).1] at hnew
        cases hnew
      refine ⟨fun k n hn => ?_, fun k n hn hroot => ?_, hsame, by omega, fun _ => by omega⟩
      · obtain ⟨hn, -⟩ := BTreeMap.get?_erase.mp hn
        -- no node loses its parent, since a node with children is not evicted
        refine (hnodes k n hn).mono (Int64.le_refl clock) fun hparent => ?_
        obtain ⟨p, hp⟩ := BTreeMap.contains_iff.mp hparent
        exact BTreeMap.contains_iff.mpr
          ⟨p, BTreeMap.get?_erase.mpr ⟨hp, evictable_childless hevict hn⟩⟩
      · refine BTreeMap.get?_erase.mpr ⟨hn, fun heq => evictable_kind hevict ?_⟩
        rw [heq, ← hkey, hkv] at hn
        rwa [Option.some.inj hn]
  -- there is room, or the node is there already
  · rename_i hguard
    obtain rfl := Except.ok.inj h
    refine ⟨hnodes, fun k n hn _ => hn, rfl, hsize, fun hnone => ?_⟩
    rw [BTreeMap.contains_eq_false.mpr hnone, Bool.not_false, Bool.true_and,
      decide_eq_true_eq] at hguard
    omega

/-! ### Items

An item is valid with its nodes, and whatever is done to it keeps whose item it is. -/

/-- An item as the store keeps it. -/
structure Item.Ok (clock : Int64) (id : String) (item : Item) : Prop where
  key : id = item.id
  hashedId : hashed id ["wf-", "orch-"] = true
  binding : bindingValid ⟨item.tmuxSessionId, item.tmuxCreatedAt⟩ = true
  source : item.sourceValid = true
  model : isSafe item.model 128 = true
  state : known item.status = true
  started : 0 < item.startedAt
  updated : item.startedAt ≤ item.updatedAt
  recent : item.updatedAt ≤ clock
  size : item.nodes.length ≤ maxNodes
  nodes : NodesOk clock item.nodes

/-- A workflow that is as it should be passes its check. -/
theorem Item.Ok.valid {item : Item} (h : item.Ok clock id) : item.valid id = true := by
  have hnodes : (item.nodes.entries.all fun e => e.2.valid item.nodes e.1) = true := by
    rw [List.all_eq_true]
    intro e he
    exact (h.nodes e.1 e.2 (BTreeMap.mem_entries.mp he)).valid
  have hstate : (active item.status || terminal item.status) = true := h.state
  unfold Item.valid
  rw [decide_eq_true h.key, h.hashedId, h.binding, h.source, h.model, hstate,
    decide_eq_true h.started, decide_eq_true h.updated, decide_eq_true h.size, hnodes]
  rfl

/-- A workflow that is as it should be is so at every later time. -/
theorem Item.Ok.mono {item : Item} (h : item.Ok clock id) (hclock : clock ≤ now) : item.Ok now id :=
  { h with
    recent := Int64.le_trans h.recent hclock
    nodes := fun k n hn => (h.nodes k n hn).mono hclock fun hparent => hparent }

/-- What every operation leaves as it is: whose item it is, and its roots. -/
structure Item.Keeps (item item' : Item) : Prop where
  id : item'.id = item.id
  tmuxSessionId : item'.tmuxSessionId = item.tmuxSessionId
  tmuxCreatedAt : item'.tmuxCreatedAt = item.tmuxCreatedAt
  source : item'.source = item.source
  sessionId : item'.sessionId = item.sessionId
  turnId : item'.turnId = item.turnId
  roots : ∀ k n, item.nodes.get? k = some n → n.nodeType = "root" →
    ∃ n', item'.nodes.get? k = some n' ∧ n'.nodeType = "root"

/-- A workflow is kept by doing nothing. -/
theorem Item.Keeps.refl (item : Item) : item.Keeps item :=
  ⟨rfl, rfl, rfl, rfl, rfl, rfl, fun _ n hn hroot => ⟨n, hn, hroot⟩⟩

/-- Two changes that keep it are one. -/
theorem Item.Keeps.trans {a b c : Item} (h : a.Keeps b) (h' : b.Keeps c) : a.Keeps c where
  id := h'.id.trans h.id
  tmuxSessionId := h'.tmuxSessionId.trans h.tmuxSessionId
  tmuxCreatedAt := h'.tmuxCreatedAt.trans h.tmuxCreatedAt
  source := h'.source.trans h.source
  sessionId := h'.sessionId.trans h.sessionId
  turnId := h'.turnId.trans h.turnId
  roots := by
    intro k n hn hroot
    obtain ⟨n', hn', hroot'⟩ := h.roots k n hn hroot
    exact h'.roots k n' hn' hroot'

/-- A change of every node that leaves their kinds. -/
theorem keeps_mapValues (item : Item) {f : Node → Node} (hf : ∀ n, (f n).nodeType = n.nodeType) :
    item.Keeps { item with nodes := item.nodes.mapValues f } := by
  refine ⟨rfl, rfl, rfl, rfl, rfl, rfl, fun k n hn hroot => ⟨f n, ?_, (hf n).trans hroot⟩⟩
  show (item.nodes.mapValues f).get? k = _
  rw [BTreeMap.get?_mapValues, hn, Option.map_some]

/-- An interruption changes no kind. -/
theorem nodeType_interruptNode (spared : Option String) (now : Int64) (n : Node) :
    (Item.interruptNode spared now n).nodeType = n.nodeType := by
  unfold Item.interruptNode
  split
  · rfl
  · rfl

/-! ### Operations

Refreshing, interrupting and aging an item go through its nodes one by one. -/

/-- An item has one of the known states when it is refreshed. -/
theorem known_status (values : List String) : known (status values) = true := by
  unfold status
  cases hfind : ["waiting_approval", "waiting_input", "running", "failed", "stale",
      "interrupted"].find? values.contains with
  | none => rfl
  | some s =>
    have hmem := List.mem_of_find?_eq_some hfind
    have hall : ∀ s ∈ ["waiting_approval", "waiting_input", "running", "failed", "stale",
        "interrupted"], known s = true := by decide
    exact hall s hmem

/-- A refreshed workflow is as it should be. -/
theorem refresh_ok {item : Item} (h : item.Ok clock id) (hclock : clock ≤ now) :
    (item.refresh now).Ok now id :=
  { h.mono hclock with
    state := known_status _
    updated := Int64.le_trans h.updated (Int64.le_trans h.recent hclock)
    recent := Int64.le_refl now }

/-- A refreshed workflow is the same one. -/
theorem refresh_keeps (item : Item) (now : Int64) : item.Keeps (item.refresh now) :=
  ⟨rfl, rfl, rfl, rfl, rfl, rfl, fun _ n hn hroot => ⟨n, hn, hroot⟩⟩

/-- The active nodes of an item are interrupted, all but one. -/
theorem interruptNodes_ok {item : Item} (h : item.Ok clock id) (hclock : clock ≤ now)
    (spared : Option String) :
    Item.Ok now id { item with nodes := item.nodes.mapValues (Item.interruptNode spared now) } :=
  { h.mono hclock with
    size := (BTreeMap.length_mapValues _).trans_le h.size
    nodes := mapValues_nodesOk fun k n hn => (h.nodes k n hn).interruptNode hclock spared }

/-- An interrupted workflow is as it should be. -/
theorem interrupt_ok {item : Item} (h : item.Ok clock id) (hclock : clock ≤ now) :
    (item.interrupt now).Ok now id :=
  refresh_ok (interruptNodes_ok h hclock none) (Int64.le_refl now)

/-- (the same one as well) -/
theorem interrupt_keeps (item : Item) (now : Int64) : item.Keeps (item.interrupt now) :=
  (keeps_mapValues item (nodeType_interruptNode none now)).trans (refresh_keeps _ now)

/-- An aged workflow is as it should be. -/
theorem stale_ok {item : Item} (h : item.Ok clock id) : (item.stale now).Ok clock id := by
  unfold Item.stale
  split
  · refine
      { h with state := rfl, size := (BTreeMap.length_mapValues _).trans_le h.size, nodes := ?_ }
    refine mapValues_nodesOk fun k n hn => ?_
    split
    · exact (h.nodes k n hn).stale
    · exact h.nodes k n hn
  · exact h

/-- An aged workflow is the same one. -/
theorem stale_keeps (item : Item) (now : Int64) : item.Keeps (item.stale now) := by
  unfold Item.stale
  split
  · have hkeeps := keeps_mapValues item
      (f := fun n =>
        if active n.status then { n with status := "stale", endedAt := n.updatedAt } else n)
      fun n => by split <;> rfl
    exact { hkeeps with }
  · exact .refl item

/-! ### A node comes into a state

The node is there already or is new; in the second case there has to be room. -/

section

variable {item item' : Item} {key parent kind provider state : String} {force : Bool}

/-- A call of `Item::node` makes room and then touches its node, unless the node has ended and the
    call is not forced. -/
theorem node_cases (h : item.node id parent kind provider state now force = .ok item') :
    ∃ kept, Item.makeRoom item.nodes id = .ok kept ∧
      ((∃ n, kept.get? id = some n ∧ item' = { item with nodes := kept }) ∨
        item' = { item with
          nodes := kept.insert id (Item.enter
            ((kept.get? id).getD (Item.newNode id parent kind provider now)) state now)
          updatedAt := now }) := by
  unfold Item.node at h
  obtain ⟨kept, hkept, h⟩ := bind_ok h
  refine ⟨kept, hkept, ?_⟩
  dsimp only at h
  split at h
  · rename_i hended
    left
    cases hget : kept.get? id with
    | none =>
      -- a new node has no state, so it has not ended
      rw [hget, Option.getD_none] at hended
      have hfresh : terminal (Item.newNode id parent kind provider now).status = false := rfl
      rw [hfresh, Bool.and_false, Bool.false_and] at hended
      cases hended
    | some n => exact ⟨n, rfl, (Except.ok.inj h).symm⟩
  · exact .inr (Except.ok.inj h).symm

/-- A node is refused only where a new one is needed and there is no room. -/
theorem node_error {e : Error} (hsize : item.nodes.length ≤ maxNodes)
    (h : item.node id parent kind provider state now force = .error e) :
    Full item.nodes ∧ item.nodes.get? id = none := by
  cases hroom : Item.makeRoom item.nodes id with
  | error e' => exact makeRoom_error hsize hroom
  | ok kept =>
    exfalso
    unfold Item.node at h
    rw [ok_bind hroom] at h
    dsimp only at h
    split at h
    · cases h
    · cases h

/-- There are no more nodes than there may be. -/
theorem node_size (h : item.Ok clock key)
    (hnode : item.node id parent kind provider state now force = .ok item') :
    item'.nodes.length ≤ maxNodes := by
  obtain ⟨kept, hkept, hcase⟩ := node_cases hnode
  obtain ⟨-, -, -, hsize, hroom⟩ := makeRoom_ok h.nodes h.size hkept
  rcases hcase with ⟨n, -, rfl⟩ | rfl
  · exact hsize
  · show (kept.insert id _).length ≤ maxNodes
    cases hget : kept.get? id with
    | some n =>
      rw [BTreeMap.length_insert_of_contains (BTreeMap.contains_iff.mpr ⟨n, hget⟩)]
      exact hsize
    | none =>
      rw [BTreeMap.length_insert hget]
      exact hroom hget

/-- **A node comes into a state.**  Its parent is a root that is there. -/
theorem node_ok (h : item.Ok clock key) (hclock : clock ≤ now) (hnow : 0 < now)
    (hid : hashed id ["root-", "agent-", "task-"] = true)
    (hparent : parent = "" ∨ hashed parent ["root-", "agent-"] = true ∧
      ∃ n, item.nodes.get? parent = some n ∧ n.nodeType = "root")
    (hkind : isSafe kind 128 = true) (hprovider : isSafe provider 64 = true)
    (hstate : known state = true)
    (hnode : item.node id parent kind provider state now force = .ok item') : item'.Ok now key := by
  obtain ⟨kept, hkept, hcase⟩ := node_cases hnode
  obtain ⟨hnodes, hroots, -⟩ := makeRoom_ok h.nodes h.size hkept
  have hsize := node_size h hnode
  have hlater := h.mono hclock
  have hkeptOk : NodesOk now kept := fun k n hn =>
    (hnodes k n hn).mono hclock fun hparent => hparent
  rcases hcase with ⟨n, -, rfl⟩ | rfl
  -- nothing but the room that was made changes
  · exact { hlater with size := hsize, nodes := hkeptOk }
  -- the node is entered, and the parents of the others are still there
  · have hcontains : ∀ k n, kept.contains k = true → (kept.insert id n).contains k = true := by
      intro k n hk
      obtain ⟨x, hx⟩ := BTreeMap.contains_iff.mp hk
      rw [BTreeMap.contains_iff]
      by_cases heq : k = id
      · exact ⟨n, heq ▸ BTreeMap.get?_insert_self⟩
      · exact ⟨x, (BTreeMap.get?_insert_ne heq).trans hx⟩
    -- an old node moves, and a new one has the fields that were checked
    have hentered : Node.Ok kept now id (Item.enter
        ((kept.get? id).getD (Item.newNode id parent kind provider now)) state now) := by
      cases hget : kept.get? id with
      | some n => exact (hkeptOk id n hget).moved (Int64.le_refl now) hstate _
      | none =>
        exact
          { key := rfl
            hashedId := hid
            parent := hparent.imp_right fun ⟨hhashed, p, hp, hroot⟩ =>
              ⟨hhashed, BTreeMap.contains_iff.mpr ⟨p, hroots parent p hp hroot⟩⟩
            state := hstate
            started := hnow
            updated := Int64.le_refl now
            recent := Int64.le_refl now
            kind := hkind
            provider := hprovider }
    refine { hlater with
      updated := Int64.le_trans hlater.updated hlater.recent
      recent := Int64.le_refl now
      size := hsize
      nodes := ?_ }
    intro k n hn
    have hn' : (kept.insert id _).get? k = some n := hn
    rw [BTreeMap.get?_insert] at hn'
    split at hn'
    · rename_i heq
      rw [heq, ← Option.some.inj hn']
      exact hentered.mono (Int64.le_refl now) (hcontains _ _)
    · exact (hkeptOk k n hn').mono (Int64.le_refl now) (hcontains _ _)

/-- The item is still that of the same turn, with its roots. -/
theorem node_keeps (h : item.Ok clock key)
    (hnode : item.node id parent kind provider state now force = .ok item') : item.Keeps item' := by
  obtain ⟨kept, hkept, hcase⟩ := node_cases hnode
  obtain ⟨-, hroots, -⟩ := makeRoom_ok h.nodes h.size hkept
  rcases hcase with ⟨n, -, rfl⟩ | rfl
  · exact ⟨rfl, rfl, rfl, rfl, rfl, rfl, fun k n hn hroot => ⟨n, hroots k n hn hroot, hroot⟩⟩
  · refine ⟨rfl, rfl, rfl, rfl, rfl, rfl, fun k n hn hroot => ?_⟩
    have hkeep := hroots k n hn hroot
    by_cases heq : k = id
    · subst heq
      refine ⟨_, BTreeMap.get?_insert_self, ?_⟩
      rw [hkeep]
      exact hroot
    · exact ⟨n, (BTreeMap.get?_insert_ne heq).trans hkeep, hroot⟩

/-- The root of an item is there after it was touched, and it is a root. -/
theorem node_root (h : item.Ok clock key)
    (hroot : ∀ n, item.nodes.get? id = some n → n.nodeType = "root")
    (hnode : item.node id parent "root" provider state now force = .ok item') :
    ∃ n, item'.nodes.get? id = some n ∧ n.nodeType = "root" := by
  obtain ⟨kept, hkept, hcase⟩ := node_cases hnode
  obtain ⟨-, -, hsame, -⟩ := makeRoom_ok h.nodes h.size hkept
  rcases hcase with ⟨n, hn, rfl⟩ | rfl
  · exact ⟨n, hn, hroot n (hsame.symm.trans hn)⟩
  · refine ⟨_, BTreeMap.get?_insert_self, ?_⟩
    cases hget : kept.get? id with
    | none => rfl
    | some n => exact hroot n (hsame.symm.trans hget)

/-- A map that is full after its root was touched was full before. -/
theorem full_of_root {root : Node} (hroot : item.nodes.get? id = some root)
    (hkind : root.nodeType = "root")
    (hnode : item.node id parent kind provider state now force = .ok item')
    (hfull : Full item'.nodes) : Full item.nodes := by
  obtain ⟨kept, hkept, hcase⟩ := node_cases hnode
  have hcontains : item.nodes.contains id = true := BTreeMap.contains_iff.mpr ⟨root, hroot⟩
  have hsame : kept = item.nodes := by
    unfold Item.makeRoom at hkept
    rw [hcontains, Bool.not_true, Bool.false_and, if_neg Bool.false_ne_true] at hkept
    exact (Except.ok.inj hkept).symm
  subst hsame
  rcases hcase with ⟨n, -, rfl⟩ | rfl
  · exact hfull
  · rw [hroot, Option.getD_some] at hfull
    obtain ⟨hlen, hnone⟩ := hfull
    refine ⟨(BTreeMap.length_insert_of_contains hcontains).symm.trans hlen, fun v hv => ?_⟩
    obtain ⟨k, hk⟩ := BTreeMap.mem_values.mp hv
    apply eq_false_of_ne_true
    intro hevict
    have hne : k ≠ id := by
      rintro rfl
      rw [hroot] at hk
      exact evictable_kind hevict (Option.some.inj hk ▸ hkind)
    have hmem : v ∈ (item.nodes.insert id (Item.enter root state now)).values :=
      BTreeMap.mem_values.mpr ⟨k, (BTreeMap.get?_insert_ne hne).trans hk⟩
    -- the children are those of before: the root has kept its parent
    have hchildless : ((item.nodes.insert id (Item.enter root state now)).values.any
        fun n => n.parentId = v.id) = false := by
      rw [List.any_eq_false]
      intro c hc
      obtain ⟨kc, hkc⟩ := BTreeMap.mem_values.mp hc
      rw [decide_eq_true_eq]
      rw [BTreeMap.get?_insert] at hkc
      split at hkc
      · have hparent : root.parentId ≠ v.id := evictable_childless hevict hroot
        rw [← Option.some.inj hkc]
        exact hparent
      · exact evictable_childless hevict hkc
    have hevict' := hnone v hmem
    unfold Item.evictable at hevict hevict'
    rw [Bool.and_eq_true] at hevict
    rw [hchildless, hevict.1] at hevict'
    cases hevict'

end

end Hmux.Workflow
