import Std.Data.TreeMap
import Blueprints.Graph.Basic

/-! # The connection index

    A compilation asks many times for the node with an id and for the
    connections at a param.  The index answers from tables that are filled
    in one pass over the blueprint.  The connections of a param are filed
    under one text, the node id and the param id joined by a colon.
    Connections that name a missing node are set aside. -/

namespace Blueprints

/-- The text under which the connections of a param are filed. -/
def Endpoint.key (e : Endpoint) : String := e.node ++ ":" ++ e.param

/-- Connections filed under texts, each list in the order of the blueprint. -/
abbrev ConnectionTable := Std.TreeMap String (List Connection)

/-- Files a connection under a text, after those that stand there. -/
def ConnectionTable.file (t : ConnectionTable) (key : String) (c : Connection) :
    ConnectionTable :=
  t.insert key (t.getD key [] ++ [c])

/-- Look-ups for one compilation. -/
structure Index where
  nodes : Std.TreeMap String Node := ∅
  outgoingTable : ConnectionTable := ∅
  leavingTable : ConnectionTable := ∅
  incomingTable : ConnectionTable := ∅
  /-- Connections that name a missing node. -/
  dangling : List Connection := []

namespace Index

/-- Takes in a node, unless one with its id is there. -/
def addNode (index : Index) (n : Node) : Index :=
  { index with nodes := index.nodes.insertIfNew n.id n }

/-- Takes in a connection: into the tables if both its nodes are there. -/
def addConnection (index : Index) (c : Connection) : Index :=
  if index.nodes.contains c.source.node && index.nodes.contains c.target.node then
    { index with
      outgoingTable := index.outgoingTable.file c.source.key c
      leavingTable := index.leavingTable.file c.source.node c
      incomingTable := index.incomingTable.file c.target.key c }
  else { index with dangling := index.dangling ++ [c] }

/-- The index of a blueprint. -/
def build (b : Blueprint) : Index :=
  b.connections.foldl addConnection (b.nodes.foldl addNode {})

/-- The first node with an id. -/
def node? (index : Index) (id : String) : Option Node := index.nodes[id]?

/-- The ids of all nodes. -/
def nodeIds (index : Index) : List String := index.nodes.keys

/-- The connections that leave an output. -/
def outgoing (index : Index) (e : Endpoint) : List Connection :=
  index.outgoingTable.getD e.key []

/-- The connections that reach an input. -/
def incoming (index : Index) (e : Endpoint) : List Connection :=
  index.incomingTable.getD e.key []

/-- The connections that leave a node by any output. -/
def leaving (index : Index) (node : String) : List Connection :=
  index.leavingTable.getD node []

/-- The connections by which control leaves a node. -/
def execLeaving (index : Index) (n : Node) (d : Definition) : List Connection :=
  (index.leaving n.id).filter fun c => d.isExecOutput c.source.param

/-- The connection that an input takes its value from: the first to reach
    it. -/
def feeding? (index : Index) (e : Endpoint) : Option Connection :=
  (index.incoming e).head?

theorem mem_nodeIds_of_node? {index : Index} {id : String} {n : Node}
    (h : index.node? id = some n) : id ∈ index.nodeIds := by
  have hmem : id ∈ index.nodes := by
    have := (Std.TreeMap.isSome_getElem?_iff_mem (t := index.nodes) (a := id)).1
    apply this
    simp only [node?] at h
    rw [h]
    rfl
  exact Std.TreeMap.mem_keys.2 hmem

end Index

end Blueprints
