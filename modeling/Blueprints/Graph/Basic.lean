import Blueprints.Json.Value
import Blueprints.Text.Numeral

/-! # Node graphs

    A *blueprint* is a graph of *nodes*.  Each node is an occurrence of a
    *definition*, which declares its input and output *params*; a
    *connection* leads from an output of one node to an input of another.
    Connections between `exec` params order the execution, all others carry
    values.  Nothing here asks that ids are distinct or that the ends of a
    connection exist: a blueprint may come from anywhere. -/

namespace Blueprints

/-- The kind of value that a param carries; `exec` carries control. -/
inductive ParamKind where
  | string
  | number
  | boolean
  | object
  | exec
  | select
  deriving DecidableEq, Repr

/-- Whether a param carries control. -/
def ParamKind.isExec : ParamKind → Bool
  | .exec => true
  | _ => false

/-- An input or output that a definition declares. -/
structure Param where
  id : String
  name : String
  kind : ParamKind
  default? : Option Json := none
  description : Option String := none
  options : Option (List String) := none
  /-- Whether the param is a setting that nothing can be connected to on the
      canvas. -/
  hidden : Bool := false
  deriving DecidableEq

/-- A class of nodes. -/
structure Definition where
  id : String
  name : String
  category : String
  description : Option String := none
  inputs : List Param := []
  outputs : List Param := []
  color : Option String := none
  deriving DecidableEq

/-- A place on the canvas.  It has no part in compilation. -/
structure Position where
  x : Double := .zero
  y : Double := .zero
  deriving DecidableEq

/-- An occurrence of a definition in a blueprint. -/
structure Node where
  id : String
  definitionId : String
  name : String := ""
  position : Position := {}
  /-- Literals for inputs that nothing is connected to. -/
  inputs : Fields := []
  /-- Preview values.  They have no part in compilation. -/
  outputs : Fields := []
  deriving DecidableEq

/-- A param of a node. -/
structure Endpoint where
  node : String
  param : String
  deriving DecidableEq, Repr

/-- An edge from an output to an input. -/
structure Connection where
  id : String
  source : Endpoint
  target : Endpoint
  deriving DecidableEq, Repr

/-- What a blueprint compiles to. -/
inductive BlueprintKind where
  | function
  | component
  deriving DecidableEq, Repr

/-- A graph of nodes. -/
structure Blueprint where
  id : String := ""
  name : String := ""
  kind : BlueprintKind := .component
  nodes : List Node := []
  connections : List Connection := []
  /-- The variables that the nodes share, with their first values. -/
  variableValues : Fields := []
  description : Option String := none
  deriving DecidableEq

/-! ## Repeated ids -/

/-- Adds to `found` every id that stands in a list more than once, or in it
    and in `seen`, in the order in which they are met again. -/
def addRepeated (found seen : List String) : List String → List String
  | [] => found
  | id :: rest =>
    if seen.contains id && !found.contains id then
      addRepeated (found ++ [id]) (id :: seen) rest
    else addRepeated found (id :: seen) rest

/-- The ids that stand in a list more than once. -/
def repeated (ids : List String) : List String := addRepeated [] [] ids

/-! ## Look-ups -/

namespace Definition

/-- The input with an id. -/
def input? (d : Definition) (id : String) : Option Param :=
  d.inputs.find? (·.id == id)

/-- The output with an id. -/
def output? (d : Definition) (id : String) : Option Param :=
  d.outputs.find? (·.id == id)

/-- The outputs that carry control. -/
def execOutputs (d : Definition) : List Param :=
  d.outputs.filter (·.kind.isExec)

/-- The outputs that carry values. -/
def dataOutputs (d : Definition) : List Param :=
  d.outputs.filter (!·.kind.isExec)

/-- Whether control can enter the node. -/
def hasExecInput (d : Definition) : Bool :=
  d.inputs.any (·.kind.isExec)

/-- Whether an id names an output that carries control. -/
def isExecOutput (d : Definition) (id : String) : Bool :=
  match d.output? id with
  | some p => p.kind.isExec
  | none => false

/-- The ids that are declared more than once among the inputs or among the
    outputs. -/
def repeatedParams (d : Definition) : List String :=
  addRepeated (repeated (d.inputs.map Param.id)) [] (d.outputs.map Param.id)

end Definition

namespace Node

/-- The literal that a node gives for an input; null counts as none. -/
def literal? (n : Node) (param : String) : Option Json :=
  match n.inputs.get? param with
  | some v => if v.isNull then none else some v
  | none => none

/-- The number text at the end of the id. -/
def numericSuffix? (n : Node) : Option String := Text.numericSuffix? n.id

end Node

/-- Whether a connection starts or ends at a node. -/
def Connection.touches (c : Connection) (node : String) : Bool :=
  c.source.node == node || c.target.node == node

namespace Blueprint

/-- The first node with an id. -/
def node? (b : Blueprint) (id : String) : Option Node :=
  b.nodes.find? (·.id == id)

/-- The first connection with an id. -/
def connection? (b : Blueprint) (id : String) : Option Connection :=
  b.connections.find? (·.id == id)

/-- The connections that leave an output, in their order. -/
def connectionsFrom (b : Blueprint) (e : Endpoint) : List Connection :=
  b.connections.filter (·.source == e)

/-- The connections that reach an input, in their order. -/
def connectionsTo (b : Blueprint) (e : Endpoint) : List Connection :=
  b.connections.filter (·.target == e)

/-- The node ids that are used more than once. -/
def repeatedNodes (b : Blueprint) : List String :=
  repeated (b.nodes.map Node.id)

end Blueprint

end Blueprints
