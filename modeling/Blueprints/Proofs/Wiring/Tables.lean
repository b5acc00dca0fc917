import Mathlib.Data.List.Basic
import Blueprints.Wiring.Index

/-! # What the index answers

    The tables of the index are filled by one pass.  What they answer is told
    here by filters over the blueprint: the node of an id is the first node
    with it (`node?_build`), and the connections at a param are those filed
    under its text whose ends exist (`incoming_build`, `leaving_build`). -/

namespace Blueprints

namespace Index

/-! ## Nodes -/

theorem nodes_addConnection (index : Index) (c : Connection) :
    (index.addConnection c).nodes = index.nodes := by
  rw [addConnection]
  split
  · rfl
  · rfl

theorem nodes_foldl_addConnection (conns : List Connection) (index : Index) :
    (conns.foldl addConnection index).nodes = index.nodes := by
  induction conns generalizing index with
  | nil => rfl
  | cons c rest ih => rw [List.foldl_cons, ih, nodes_addConnection]

/-- A node is filed under its id, unless there is one. -/
theorem node?_addNode (index : Index) (n : Node) (id : String) :
    (index.addNode n).node? id
      = (index.node? id).or (if n.id = id then some n else none) := by
  rw [node?, addNode, Std.TreeMap.getElem?_insertIfNew]
  by_cases hid : n.id = id
  · subst hid
    by_cases hmem : n.id ∈ index.nodes
    · simp [hmem, node?]
    · simp [hmem, node?]
  · rw [if_neg (by simp [hid]), if_neg hid, Option.or_none, node?]

/-- **The node of an id is the first one with it.** By induction on the nodes. -/
theorem node?_foldl_addNode (nodes : List Node) (index : Index) (id : String) :
    (nodes.foldl addNode index).node? id = (index.node? id).or (nodes.find? (·.id == id)) := by
  induction nodes generalizing index with
  | nil => simp
  | cons n rest ih =>
      rw [List.foldl_cons, ih, node?_addNode, Option.or_assoc, List.find?_cons]
      congr 1
      by_cases hid : n.id = id
      · simp [hid]
      · rw [if_neg hid, beq_false_of_ne hid]
        rfl

/-- **The node of an id is the first node with it.** -/
theorem node?_build (b : Blueprint) (id : String) : (build b).node? id = b.node? id := by
  have hnodes := nodes_foldl_addConnection b.connections (b.nodes.foldl addNode {})
  rw [build, node?, hnodes]
  have hfirst := node?_foldl_addNode b.nodes {} id
  rw [node?] at hfirst
  rw [hfirst]
  simp [node?, Blueprint.node?]

theorem id_of_node?_build {b : Blueprint} {id : String} {n : Node}
    (h : (build b).node? id = some n) : n.id = id := by
  rw [node?_build] at h
  have hfound := List.find?_some (show b.nodes.find? (·.id == id) = some n from h)
  exact beq_iff_eq.1 hfound

theorem mem_of_node?_build {b : Blueprint} {id : String} {n : Node}
    (h : (build b).node? id = some n) : n ∈ b.nodes := by
  rw [node?_build] at h
  exact List.mem_of_find?_eq_some h

/-! ## Connections -/

/-- Whether both ends of a connection exist. -/
def knows (index : Index) (c : Connection) : Bool :=
  index.nodes.contains c.source.node && index.nodes.contains c.target.node

theorem knows_addConnection (index : Index) (c c' : Connection) :
    (index.addConnection c).knows c' = index.knows c' := by
  rw [knows, nodes_addConnection, knows]

/-- A connection is filed behind those under the same text. -/
theorem getD_file (t : ConnectionTable) (key k : String) (c : Connection) :
    (t.file key c).getD k [] = t.getD k [] ++ if key = k then [c] else [] := by
  rw [ConnectionTable.file, Std.TreeMap.getD_insert]
  by_cases hkey : key = k
  · subst hkey
    simp
  · rw [if_neg (by simpa using hkey), if_neg hkey, List.append_nil]

/-- A table that files every known connection under a text of its own holds,
    under each text, the known connections with it in their order. -/
theorem getD_foldl_addConnection {table : Index → ConnectionTable} {key : Connection → String}
    (hfile : ∀ index c, table (index.addConnection c)
      = if index.knows c then (table index).file (key c) c else table index)
    (conns : List Connection) (index : Index) (k : String) :
    (table (conns.foldl addConnection index)).getD k []
      = (table index).getD k [] ++ conns.filter fun c => index.knows c && key c == k := by
  induction conns generalizing index with
  | nil => simp
  | cons c rest ih =>
      rw [List.foldl_cons, ih, hfile]
      simp only [knows_addConnection]
      cases hknown : index.knows c with
      | false => simp [hknown]
      | true =>
          rw [if_pos rfl, getD_file, List.append_assoc]
          by_cases hkey : key c = k
          · simp [hknown, hkey]
          · simp [hknown, hkey]

theorem knows_build (b : Blueprint) (c : Connection) :
    (build b).knows c = (b.nodes.foldl addNode {}).knows c := by
  rw [knows, knows, build, nodes_foldl_addConnection]

/-- To file nodes files no connection. -/
theorem tables_foldl_addNode (nodes : List Node) (index : Index) :
    (nodes.foldl addNode index).incomingTable = index.incomingTable
      ∧ (nodes.foldl addNode index).leavingTable = index.leavingTable := by
  induction nodes generalizing index with
  | nil => exact ⟨rfl, rfl⟩
  | cons n rest ih => exact ih (index.addNode n)

/-- **The connections that reach an input** are those that are filed under
    its text. -/
theorem incoming_build (b : Blueprint) (e : Endpoint) :
    (build b).incoming e
      = b.connections.filter fun c => (build b).knows c && c.target.key == e.key := by
  have hfile : ∀ (index : Index) (c : Connection), (index.addConnection c).incomingTable
      = if index.knows c then index.incomingTable.file c.target.key c
        else index.incomingTable := by
    intro index c
    rw [addConnection, knows]
    split
    · rfl
    · rfl
  simp only [knows_build]
  rw [incoming, build, getD_foldl_addConnection hfile, (tables_foldl_addNode b.nodes {}).1]
  simp

/-- **The connections that leave a node.** -/
theorem leaving_build (b : Blueprint) (id : String) :
    (build b).leaving id
      = b.connections.filter fun c => (build b).knows c && c.source.node == id := by
  have hfile : ∀ (index : Index) (c : Connection), (index.addConnection c).leavingTable
      = if index.knows c then index.leavingTable.file c.source.node c
        else index.leavingTable := by
    intro index c
    rw [addConnection, knows]
    split
    · rfl
    · rfl
  simp only [knows_build]
  rw [leaving, build, getD_foldl_addConnection hfile, (tables_foldl_addNode b.nodes {}).2]
  simp

theorem outgoingTable_foldl_addNode (nodes : List Node) (index : Index) :
    (nodes.foldl addNode index).outgoingTable = index.outgoingTable := by
  induction nodes generalizing index with
  | nil => rfl
  | cons n rest ih => exact ih (index.addNode n)

/-- **The connections that leave an output** are those that are filed under its
    text. -/
theorem outgoing_build (b : Blueprint) (e : Endpoint) :
    (build b).outgoing e
      = b.connections.filter fun c => (build b).knows c && c.source.key == e.key := by
  have hfile : ∀ (index : Index) (c : Connection), (index.addConnection c).outgoingTable
      = if index.knows c then index.outgoingTable.file c.source.key c
        else index.outgoingTable := by
    intro index c
    rw [addConnection, knows]
    split
    · rfl
    · rfl
  simp only [knows_build]
  rw [outgoing, build, getD_foldl_addConnection hfile, outgoingTable_foldl_addNode]
  simp

theorem dangling_foldl_addNode (nodes : List Node) (index : Index) :
    (nodes.foldl addNode index).dangling = index.dangling := by
  induction nodes generalizing index with
  | nil => rfl
  | cons n rest ih => exact ih (index.addNode n)

/-- **The connections that are not known are set aside**, in their order. -/
theorem dangling_foldl_addConnection (conns : List Connection) (index : Index) :
    (conns.foldl addConnection index).dangling
      = index.dangling ++ conns.filter fun c => !index.knows c := by
  induction conns generalizing index with
  | nil => simp
  | cons c rest ih =>
      have hdangling : (index.addConnection c).dangling
          = index.dangling ++ if index.knows c then [] else [c] := by
        rw [addConnection, knows]
        split
        · exact (List.append_nil _).symm
        · rfl
      rw [List.foldl_cons, ih, hdangling]
      simp only [knows_addConnection]
      cases hknown : index.knows c with
      | false => simp [hknown]
      | true => simp [hknown]

/-- **The connections that are set aside.** -/
theorem dangling_build (b : Blueprint) :
    (build b).dangling = b.connections.filter fun c => !(build b).knows c := by
  simp only [knows_build]
  rw [build, dangling_foldl_addConnection, dangling_foldl_addNode]
  rfl

end Index

end Blueprints
