import Blueprints.Emit.Context

/-! # What pure nodes compute

    A pure node takes the values of some of its inputs and computes the
    value of its first data output. -/

namespace Blueprints

namespace PureKind

/-- The inputs that a kind takes its value from, in the order in which they
    are read. -/
def slots : PureKind → List String
  | .constant _ | .getVariable => []
  | .math _ | .text .concat | .logic .and | .logic .or | .compare _ => ["a", "b"]
  | .random => ["min", "max"]
  | .abs | .logic .not | .convert _ => ["value"]
  | .text .length => ["text"]
  | .text .contains => ["text", "search"]
  | .text .replace => ["text", "search", "replace"]

/-- The helper for an arithmetic operation. -/
def mathHelper : MathOp → Helper
  | .add => .add
  | .subtract => .subtract
  | .multiply => .multiply
  | .divide => .divide

/-- The helper for a comparison. -/
def compareHelper : CompareOp → Helper
  | .equal => .equal
  | .greater => .greater
  | .less => .less

/-- The helper for a conversion. -/
def conversionHelper : Conversion → Helper
  | .toString => .toString
  | .toNumber => .toNumber
  | .toBoolean => .toBoolean

/-- The value of a constant that its node does not give. -/
def defaultConstant : ConstantKind → Json
  | .number => .int 0
  | .string => .string ""
  | .boolean => .bool false
  | .null => .null

/-- The value of a constant. -/
def constantValue (kind : ConstantKind) (n : Node) : Json :=
  match kind with
  | .null => .null
  | kind => (n.literal? "value").getD (defaultConstant kind)

/-- What a node of a kind computes from the operands of its inputs. -/
def expr (kind : PureKind) (ctx : Context) (n : Node) (d : Definition)
    (operand : String → Operand) : Expr :=
  match kind with
  | .constant kind => .constant (constantValue kind n)
  | .math op => .call (mathHelper op) [operand "a", operand "b"]
  | .random => .random (operand "min") (operand "max")
  | .abs => .abs (operand "value")
  | .text .concat => .concat (operand "a") (operand "b")
  | .text .length => .length (operand "text")
  | .text .contains => .contains (operand "text") (operand "search")
  | .text .replace => .replace (operand "text") (operand "search") (operand "replace")
  | .logic .and => .call .logicAnd [operand "a", operand "b"]
  | .logic .or => .call .logicOr [operand "a", operand "b"]
  | .logic .not => .call .logicNot [operand "value"]
  | .compare op => .call (compareHelper op) [operand "a", operand "b"]
  | .getVariable => .readVariable (ctx.variableOf n d)
  | .convert conversion => .call (conversionHelper conversion) [operand "value"]

end PureKind

/-- The temporary that holds the value of a node: its name and type. -/
def Context.result? (ctx : Context) (n : Node) (d : Definition) : Option (String × String) :=
  match d.dataOutputs with
  | [] => none
  | output :: _ =>
    (ctx.names.name? ⟨n.id, output.id⟩).map fun name => (name, output.kind.typeName)

end Blueprints
