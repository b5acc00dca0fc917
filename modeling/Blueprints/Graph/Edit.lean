import Blueprints.Catalog.Basic
import Blueprints.Graph.Kind
import Blueprints.Text.Identifier

/-! # Editing blueprints

    The operations by which a blueprint is built up and changed.  An edit
    either fails with its cause or gives the edited blueprint together with
    what was added or taken out; the blueprint it was applied to is never
    changed.  New ids end in the next free number. -/

namespace Blueprints

/-- The two sides of a node. -/
inductive Direction where
  | input
  | output
  deriving DecidableEq, Repr

/-- Why two params cannot be connected. -/
inductive ConnectionFlaw where
  | execMismatch
  | alreadyConnected
  deriving DecidableEq, Repr

/-- Why an edit failed. -/
inductive EditError where
  | definitionNotFound (id : String)
  | nodeNotFound (id : String)
  | connectionNotFound (id : String)
  | paramNotFound (endpoint : Endpoint) (direction : Direction)
  | invalidConnection (source target : Endpoint) (flaw : ConnectionFlaw)
  deriving DecidableEq, Repr

/-- The name of a side. -/
def Direction.name : Direction → String
  | .input => "input"
  | .output => "output"

/-- Why two params cannot be connected, in words. -/
def ConnectionFlaw.message : ConnectionFlaw → String
  | .execMismatch => "exec slots only connect to exec slots"
  | .alreadyConnected => "connection already exists"

/-- Why an edit failed, in words. -/
def EditError.message : EditError → String
  | .definitionNotFound id => s!"Node definition '{id}' not found in catalog"
  | .nodeNotFound id => s!"Node '{id}' not found in blueprint"
  | .connectionNotFound id => s!"Connection '{id}' not found in blueprint"
  | .paramNotFound e direction =>
    s!"Node '{e.node}' has no {direction.name} param '{e.param}'"
  | .invalidConnection s t flaw =>
    s!"Cannot connect {s.node}.{s.param} to {t.node}.{t.param}: {flaw.message}"

/-- A node with nothing set; its name is that of its definition id. -/
def Node.new (id definitionId : String) : Node :=
  { id, definitionId, name := definitionId }

/-- Edits the definition that an id stands for. -/
def Catalog.edit (catalog : Catalog) (id : String) (change : Definition → Definition) :
    Except EditError Catalog :=
  match catalog.update? id change with
  | some catalog => .ok catalog
  | none => .error (.definitionNotFound id)

namespace Blueprint

/-- A blueprint without nodes. -/
def new (name : String) (kind : BlueprintKind) : Blueprint :=
  { id := "blueprint_" ++ Text.slug name, name, kind }

/-- The id of the next node. -/
def nextNodeId (b : Blueprint) : String :=
  "node_" ++ toString (Text.nextSequence (b.nodes.map Node.id))

/-- The id of the next connection. -/
def nextConnectionId (b : Blueprint) : String :=
  "conn_" ++ toString (Text.nextSequence (b.connections.map Connection.id))

/-- Where the entry nodes of a new blueprint stand: those of a component in
    columns of four. -/
def entryPositions (kind : BlueprintKind) : List (String × Position) :=
  match kind with
  | .function => [("function_start", ⟨.ofNat 100, .ofNat 200⟩)]
  | .component =>
    Hook.all.zipIdx.map fun (hook, i) =>
      (hook.name, ⟨.ofNat (100 + i / 4 * 300), .ofNat (100 + i % 4 * 100)⟩)

/-- Appends an entry node, named as the catalog names it. -/
def placeEntry (catalog : Catalog) (b : Blueprint) (definitionId : String)
    (position : Position) : Blueprint :=
  let name :=
    match catalog.find? definitionId with
    | some d => d.name
    | none => definitionId
  { b with nodes := b.nodes ++ [{ id := b.nextNodeId, definitionId, name, position }] }

/-- A blueprint with its entry nodes in place. -/
def scaffold (name : String) (kind : BlueprintKind) (catalog : Catalog) : Blueprint :=
  (entryPositions kind).foldl
    (fun b (definitionId, position) => placeEntry catalog b definitionId position)
    (new name kind)

/-- The literals that a new node starts with. -/
def seedInputs (definitionId : String) : Fields :=
  match NodeKind.ofDefinition? definitionId with
  | some (.pure (.constant .number)) => [("value", .int 0)]
  | some (.pure (.constant .string)) => [("value", .string "")]
  | some (.pure (.constant .boolean)) => [("value", .bool false)]
  | _ => []

/-- Adds a node of a definition. -/
def addNode (b : Blueprint) (catalog : Catalog) (definitionId : String)
    (position : Position) : Except EditError (Node × Blueprint) :=
  match catalog.find? definitionId with
  | none => .error (.definitionNotFound definitionId)
  | some d =>
    let node : Node :=
      { id := b.nextNodeId, definitionId, name := d.name, position
        inputs := seedInputs definitionId }
    .ok (node, { b with nodes := b.nodes ++ [node] })

/-- Takes out the first node with an id, and every connection that touches
    it. -/
def removeNode (b : Blueprint) (id : String) : Except EditError (Node × Blueprint) :=
  match b.node? id with
  | none => .error (.nodeNotFound id)
  | some node =>
    .ok (node,
      { b with
        nodes := b.nodes.eraseP (·.id == id)
        connections := b.connections.filter fun c => !c.touches id })

/-- The node at an end of a connection. -/
def endNode (b : Blueprint) (id : String) : Except EditError Node :=
  match b.node? id with
  | some n => .ok n
  | none => .error (.nodeNotFound id)

/-- The definition of a node at an end of a connection. -/
def endDefinition (catalog : Catalog) (n : Node) : Except EditError Definition :=
  match catalog.find? n.definitionId with
  | some d => .ok d
  | none => .error (.definitionNotFound n.definitionId)

/-- The param at an end of a connection. -/
def endParam (e : Endpoint) (direction : Direction) (d : Definition) :
    Except EditError Param :=
  let found :=
    match direction with
    | .input => d.input? e.param
    | .output => d.output? e.param
  match found with
  | some p => .ok p
  | none => .error (.paramNotFound e direction)

/-- Appends a connection without looking at its ends. -/
def addConnection (b : Blueprint) (c : Connection) : Blueprint :=
  { b with connections := b.connections ++ [c] }

/-- Connects an output to an input.  Both have to exist, both have to carry
    control or both values, and they must not be connected yet. -/
def connect (b : Blueprint) (catalog : Catalog) (source target : Endpoint) :
    Except EditError (Connection × Blueprint) := do
  let sourceNode ← b.endNode source.node
  let targetNode ← b.endNode target.node
  let sourceDefinition ← endDefinition catalog sourceNode
  let targetDefinition ← endDefinition catalog targetNode
  let output ← endParam source .output sourceDefinition
  let input ← endParam target .input targetDefinition
  if output.kind.isExec != input.kind.isExec then
    throw (.invalidConnection source target .execMismatch)
  if b.connections.any fun c => c.source == source && c.target == target then
    throw (.invalidConnection source target .alreadyConnected)
  let c : Connection := { id := b.nextConnectionId, source, target }
  return (c, b.addConnection c)

/-- Takes out the first connection with an id. -/
def removeConnection (b : Blueprint) (id : String) :
    Except EditError (Connection × Blueprint) :=
  match b.connection? id with
  | none => .error (.connectionNotFound id)
  | some c => .ok (c, { b with connections := b.connections.eraseP (·.id == id) })

/-- Changes the first node with an id. -/
def modifyFirst (id : String) (f : Node → Node) : List Node → List Node
  | [] => []
  | n :: rest => if n.id == id then f n :: rest else n :: modifyFirst id f rest

/-- Gives an input of a node a literal. -/
def setInput (b : Blueprint) (node param : String) (value : Json) :
    Except EditError Blueprint :=
  match b.node? node with
  | none => .error (.nodeNotFound node)
  | some _ =>
    .ok { b with
      nodes := modifyFirst node (fun n => { n with inputs := n.inputs.insert param value })
        b.nodes }

/-- Gives a variable its initial value. -/
def setVariable (b : Blueprint) (name : String) (value : Json) : Blueprint :=
  { b with variableValues := b.variableValues.insert name value }

end Blueprint

end Blueprints
