/-! # Node kinds

    The compiler knows a closed set of node kinds; the id of a node's
    definition says which one it is.  *Pure* kinds only compute a value and
    are emitted where it is needed.  *Entry* kinds start a routine.
    *Control* kinds place what follows them themselves. -/

namespace Blueprints

/-- The moments at which a component is called. -/
inductive Hook where
  | onLoad
  | start
  | update
  | lateUpdate
  | onEnable
  | onDisable
  | onDestroy
  deriving DecidableEq, Repr

namespace Hook

/-- All hooks, in the order in which they are called. -/
def all : List Hook :=
  [.onLoad, .start, .update, .lateUpdate, .onEnable, .onDisable, .onDestroy]

/-- The name of a hook's method, which is also the id of its definition. -/
def name : Hook → String
  | .onLoad => "onLoad"
  | .start => "start"
  | .update => "update"
  | .lateUpdate => "lateUpdate"
  | .onEnable => "onEnable"
  | .onDisable => "onDisable"
  | .onDestroy => "onDestroy"

/-- Whether the method is given the time since the last frame. -/
def takesDeltaTime : Hook → Bool
  | .update | .lateUpdate => true
  | _ => false

end Hook

inductive ConstantKind where
  | number
  | string
  | boolean
  | null
  deriving DecidableEq, Repr

inductive MathOp where
  | add
  | subtract
  | multiply
  | divide
  deriving DecidableEq, Repr

inductive TextOp where
  | concat
  | length
  | contains
  | replace
  deriving DecidableEq, Repr

inductive LogicOp where
  | and
  | or
  | not
  deriving DecidableEq, Repr

inductive CompareOp where
  | equal
  | greater
  | less
  deriving DecidableEq, Repr

inductive Conversion where
  | toString
  | toNumber
  | toBoolean
  deriving DecidableEq, Repr

/-- A node that only computes a value. -/
inductive PureKind where
  | constant (kind : ConstantKind)
  | math (op : MathOp)
  | random
  | abs
  | text (op : TextOp)
  | logic (op : LogicOp)
  | compare (op : CompareOp)
  | getVariable
  | convert (conversion : Conversion)
  deriving DecidableEq, Repr

/-- Every kind of node that can be emitted. -/
inductive NodeKind where
  | functionStart
  | lifecycle (hook : Hook)
  | functionParameter
  | functionReturn
  | print
  | finish
  | delay
  | sequence
  | parallel
  | branch
  | forLoop
  | switch
  | setVariable
  | debugLog
  | debugBreak
  | debugWatch
  | pure (kind : PureKind)
  deriving DecidableEq, Repr

namespace NodeKind

/-- The kinds by the ids of their definitions. -/
def registry : List (String × NodeKind) :=
  [ ("function_start", .functionStart),
    ("onLoad", .lifecycle .onLoad),
    ("start", .lifecycle .start),
    ("update", .lifecycle .update),
    ("lateUpdate", .lifecycle .lateUpdate),
    ("onEnable", .lifecycle .onEnable),
    ("onDisable", .lifecycle .onDisable),
    ("onDestroy", .lifecycle .onDestroy),
    ("function_parameter", .functionParameter),
    ("function_return", .functionReturn),
    ("number_constant", .pure (.constant .number)),
    ("string_constant", .pure (.constant .string)),
    ("boolean_constant", .pure (.constant .boolean)),
    ("null_constant", .pure (.constant .null)),
    ("print", .print),
    ("end", .finish),
    ("delay", .delay),
    ("sequence", .sequence),
    ("parallel", .parallel),
    ("if_condition", .branch),
    ("for_loop", .forLoop),
    ("switch", .switch),
    ("add_numbers", .pure (.math .add)),
    ("subtract_numbers", .pure (.math .subtract)),
    ("multiply_numbers", .pure (.math .multiply)),
    ("divide_numbers", .pure (.math .divide)),
    ("random_number", .pure .random),
    ("math_abs", .pure .abs),
    ("string_concat", .pure (.text .concat)),
    ("string_length", .pure (.text .length)),
    ("string_contains", .pure (.text .contains)),
    ("string_replace", .pure (.text .replace)),
    ("logic_and", .pure (.logic .and)),
    ("logic_or", .pure (.logic .or)),
    ("logic_not", .pure (.logic .not)),
    ("compare_equal", .pure (.compare .equal)),
    ("compare_greater", .pure (.compare .greater)),
    ("compare_less", .pure (.compare .less)),
    ("get_variable", .pure .getVariable),
    ("set_variable", .setVariable),
    ("to_string", .pure (.convert .toString)),
    ("to_number", .pure (.convert .toNumber)),
    ("to_boolean", .pure (.convert .toBoolean)),
    ("debug_log", .debugLog),
    ("debug_break", .debugBreak),
    ("debug_watch", .debugWatch) ]

/-- The kind that a definition id stands for. -/
def ofDefinition? (definitionId : String) : Option NodeKind :=
  registry.lookup definitionId

/-- The definition id of a kind. -/
def definitionId (kind : NodeKind) : String :=
  match registry.find? (·.2 == kind) with
  | some (id, _) => id
  | none => "unknown"

/-- Whether a routine can start at the node. -/
def isEntry : NodeKind → Bool
  | .functionStart | .lifecycle _ => true
  | _ => false

/-- Whether the node only computes a value. -/
def isPure : NodeKind → Bool
  | .pure _ => true
  | _ => false

/-- Whether the node places what follows it itself. -/
def isControl : NodeKind → Bool
  | .sequence | .parallel | .branch | .forLoop | .switch => true
  | _ => false

end NodeKind

end Blueprints
