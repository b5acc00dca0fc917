import Blueprints.Graph.Kind
import Blueprints.Json.Writer
import Blueprints.Text.Blank
import Blueprints.Wiring.Index
import Blueprints.Wiring.Temporaries

/-! # Where values come from

    An input that nothing is connected to takes the literal of its node,
    else the declared default.  A connected input takes what the first
    connection brings: the temporary of the output it comes from, or a
    parameter of the routine, which is named and never copied. -/

namespace Blueprints

/-- The output of a hook, and the parameter of its method, that holds the
    time since the last frame. -/
def deltaTime : String := "deltaTime"

/-- A setting of a node as text: its literal, else the declared default. -/
def Node.setting? (n : Node) (d : Definition) (param : String) : Option String :=
  let declared := match d.input? param with
    | some p => p.default?
    | none => none
  match (n.literal? param).or declared with
  | none | some .null => none
  | some (.string s) => some s
  | some v => some v.compact

/-- The name of the parameter that a parameter node stands for. -/
def Node.parameterName (n : Node) (d : Definition) : String :=
  Text.identifier ((n.setting? d "param_name").getD "param")

/-- The type of the parameter that a parameter node stands for. -/
def Node.parameterType (n : Node) (d : Definition) : String :=
  firstNonEmpty "any" [Text.trim ((n.setting? d "param_type").getD "")]

/-- What an input takes its value from. -/
inductive Source where
  | literal (value : Json) (kind : Option ParamKind)
  | parameter (name type : String)
  | temporary (name : String) (output : Endpoint) (kind : ParamKind)
  | undefined
  deriving DecidableEq

namespace Source

/-- What an input without a connection takes its value from. -/
def unconnected (catalog : Catalog) (n : Node) (param : String) : Source :=
  let declared := match catalog.find? n.definitionId with
    | some d => d.input? param
    | none => none
  let kind := declared.map Param.kind
  match n.literal? param with
  | some v => .literal v kind
  | none =>
    match declared.bind Param.default? with
    | some .null | none => .undefined
    | some v => .literal v kind

/-- What a connection brings. -/
def connected (index : Index) (catalog : Catalog) (names : Temporaries) (c : Connection) :
    Source :=
  match index.node? c.source.node with
  | none => .undefined
  | some producer =>
    match catalog.find? producer.definitionId with
    | none => .undefined
    | some d =>
      let temporary :=
        match d.output? c.source.param with
        | none => undefined
        | some output =>
          match names.name? ⟨producer.id, output.id⟩ with
          | some name => .temporary name ⟨producer.id, output.id⟩ output.kind
          | none => .undefined
      match NodeKind.ofDefinition? d.id with
      | some .functionParameter => .parameter (producer.parameterName d) (producer.parameterType d)
      | some (.lifecycle hook) =>
        if hook.takesDeltaTime && c.source.param == deltaTime then .parameter deltaTime "number"
        else temporary
      | _ => temporary

/-- What an input takes its value from. -/
def resolve (index : Index) (catalog : Catalog) (names : Temporaries) (n : Node)
    (param : String) : Source :=
  match index.feeding? ⟨n.id, param⟩ with
  | some c => connected index catalog names c
  | none => unconnected catalog n param

end Source

end Blueprints
