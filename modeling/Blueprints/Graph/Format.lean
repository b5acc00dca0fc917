import Blueprints.Graph.Basic
import Blueprints.Json.Record

/-! # Graphs as JSON

    The written form of definitions, nodes, connections and blueprints, and
    their readers.  Fields are written in a fixed order.  Optional fields
    that are absent, and a param that is not hidden, are not written. -/

namespace Blueprints

open Json.Reader (RecordField)

/-- An optional field as it is written: nothing, if it is absent. -/
def Json.optionalField (name : String) (value : Option Json) : List (String × Json) :=
  match value with
  | some v => [(name, v)]
  | none => []

/-! ## Params -/

/-- The names of the param kinds. -/
def ParamKind.names : List (String × ParamKind) :=
  [("string", .string), ("number", .number), ("boolean", .boolean), ("object", .object),
    ("exec", .exec), ("select", .select)]

/-- The name of a param kind. -/
def ParamKind.name : ParamKind → String
  | .string => "string"
  | .number => "number"
  | .boolean => "boolean"
  | .object => "object"
  | .exec => "exec"
  | .select => "select"

namespace Param

/-- A param as JSON. -/
def toJson (p : Param) : Json :=
  .object <|
    [("id", .string p.id), ("name", .string p.name), ("type", .string p.kind.name)]
    ++ Json.optionalField "defaultValue" p.default?
    ++ Json.optionalField "description" (p.description.map .string)
    ++ Json.optionalField "options" (p.options.map fun os => .array (os.map .string))
    ++ Json.optionalField "noPort" (if p.hidden then some (.bool true) else none)

/-- The fields of a param. -/
def layout : List (RecordField Param) :=
  [ .needed "id" (fun _ => .text) fun v p => { p with id := v },
    .needed "name" (fun _ => .text) fun v p => { p with name := v },
    .needed "type" (Json.Reader.variant ParamKind.names) fun v p => { p with kind := v },
    .optional "defaultValue" (fun k => .option (.value k)) fun v p => { p with default? := v },
    .optional "description" (fun _ => .option .text) fun v p => { p with description := v },
    .optional "options" (fun k => .option (.list (fun _ => .text) k)) fun v p =>
      { p with options := v },
    { RecordField.optional "noPort" (fun _ => .boolean) (fun v p => { p with hidden := v }) with
      synonyms := ["hidden"] } ]

/-- Reads a param. -/
def reader : Nat → Json.Reader Param :=
  .record "NodeParam" layout { id := "", name := "", kind := .string }

end Param

/-! ## Definitions -/

namespace Definition

/-- A definition as JSON. -/
def toJson (d : Definition) : Json :=
  .object <|
    [("id", .string d.id), ("name", .string d.name), ("category", .string d.category)]
    ++ Json.optionalField "description" (d.description.map .string)
    ++ [("inputs", .array (d.inputs.map Param.toJson)),
        ("outputs", .array (d.outputs.map Param.toJson))]
    ++ Json.optionalField "color" (d.color.map .string)

/-- The fields of a definition. -/
def layout : List (RecordField Definition) :=
  [ .needed "id" (fun _ => .text) fun v d => { d with id := v },
    .needed "name" (fun _ => .text) fun v d => { d with name := v },
    .needed "category" (fun _ => .text) fun v d => { d with category := v },
    .optional "description" (fun _ => .option .text) fun v d => { d with description := v },
    .optional "inputs" (.list Param.reader) fun v d => { d with inputs := v },
    .optional "outputs" (.list Param.reader) fun v d => { d with outputs := v },
    .optional "color" (fun _ => .option .text) fun v d => { d with color := v } ]

/-- Reads a definition. -/
def reader : Nat → Json.Reader Definition :=
  .record "NodeDefinition" layout { id := "", name := "", category := "" }

end Definition

/-! ## Nodes -/

namespace Position

/-- A position as JSON. -/
def toJson (p : Position) : Json :=
  .object [("x", .float p.x), ("y", .float p.y)]

/-- The fields of a position. -/
def layout : List (RecordField Position) :=
  [ .needed "x" (fun _ => .double) fun v p => { p with x := v },
    .needed "y" (fun _ => .double) fun v p => { p with y := v } ]

/-- Reads a position. -/
def reader : Nat → Json.Reader Position :=
  .record "Position" layout {}

end Position

namespace Node

/-- A node as JSON. -/
def toJson (n : Node) : Json :=
  .object
    [("id", .string n.id), ("definitionId", .string n.definitionId), ("name", .string n.name),
      ("position", n.position.toJson), ("inputs", .object n.inputs),
      ("outputs", .object n.outputs)]

/-- The fields of a node. -/
def layout : List (RecordField Node) :=
  [ .needed "id" (fun _ => .text) fun v n => { n with id := v },
    .needed "definitionId" (fun _ => .text) fun v n => { n with definitionId := v },
    .optional "name" (fun _ => .text) fun v n => { n with name := v },
    .optional "position" Position.reader fun v n => { n with position := v },
    .optional "inputs" .table fun v n => { n with inputs := v },
    .optional "outputs" .table fun v n => { n with outputs := v } ]

/-- Reads a node. -/
def reader : Nat → Json.Reader Node :=
  .record "NodeInstance" layout { id := "", definitionId := "" }

end Node

/-! ## Connections -/

namespace Connection

/-- A connection as JSON. -/
def toJson (c : Connection) : Json :=
  .object
    [("id", .string c.id), ("fromNodeId", .string c.source.node),
      ("fromParamId", .string c.source.param), ("toNodeId", .string c.target.node),
      ("toParamId", .string c.target.param)]

/-- The fields of a connection. -/
def layout : List (RecordField Connection) :=
  [ .needed "id" (fun _ => .text) fun v c => { c with id := v },
    .needed "fromNodeId" (fun _ => .text) fun v c => { c with source.node := v },
    .needed "fromParamId" (fun _ => .text) fun v c => { c with source.param := v },
    .needed "toNodeId" (fun _ => .text) fun v c => { c with target.node := v },
    .needed "toParamId" (fun _ => .text) fun v c => { c with target.param := v } ]

/-- Reads a connection. -/
def reader : Nat → Json.Reader Connection :=
  .record "NodeConnection" layout { id := "", source := ⟨"", ""⟩, target := ⟨"", ""⟩ }

end Connection

/-! ## Blueprints -/

/-- The names of the blueprint kinds. -/
def BlueprintKind.names : List (String × BlueprintKind) :=
  [("function", .function), ("component", .component)]

/-- The name of a blueprint kind. -/
def BlueprintKind.name : BlueprintKind → String
  | .function => "function"
  | .component => "component"

namespace Blueprint

/-- A blueprint as JSON. -/
def toJson (b : Blueprint) : Json :=
  .object <|
    [("id", .string b.id), ("name", .string b.name), ("type", .string b.kind.name),
      ("nodes", .array (b.nodes.map Node.toJson)),
      ("connections", .array (b.connections.map Connection.toJson)),
      ("variables", .object b.variableValues)]
    ++ Json.optionalField "description" (b.description.map .string)

/-- The fields of a blueprint. -/
def layout : List (RecordField Blueprint) :=
  [ .optional "id" (fun _ => .text) fun v b => { b with id := v },
    .optional "name" (fun _ => .text) fun v b => { b with name := v },
    .optional "type" (Json.Reader.variant BlueprintKind.names) fun v b => { b with kind := v },
    .needed "nodes" (.list Node.reader) fun v b => { b with nodes := v },
    .needed "connections" (.list Connection.reader) fun v b => { b with connections := v },
    .optional "variables" .table fun v b => { b with variableValues := v },
    .optional "description" (fun _ => .option .text) fun v b => { b with description := v } ]

/-- Reads a blueprint. -/
def reader : Nat → Json.Reader Blueprint :=
  .record "Blueprint" layout {}

end Blueprint

end Blueprints
