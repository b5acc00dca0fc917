import Blueprints.Code.Helper
import Blueprints.Graph.Basic
import Blueprints.Json.Writer
import Blueprints.Text.Identifier
import Blueprints.Text.Numeral

/-! # Statements — the lines of generated code as data

    A routine is made of statements, each of which is one line of code.
    What a statement calls, reads and assigns is told by the statement
    itself; only its last use turns it into text. -/

namespace Blueprints

/-! ## Types -/

/-- The type of the values that a param carries. -/
def ParamKind.typeName : ParamKind → String
  | .number => "number"
  | .string => "string"
  | .boolean => "boolean"
  | .object | .exec | .select => "any"

/-- The type of a literal. -/
def Json.typeName : Json → String
  | .int _ | .float _ => "number"
  | .string _ => "string"
  | .bool _ => "boolean"
  | .null | .array _ | .object _ => "any"

/-! ## Operands and expressions -/

/-- A value that a statement reads. -/
inductive Operand where
  | literal (value : Json)
  | parameter (name : String)
  | temporary (name : String)
  | undefined
  deriving DecidableEq

/-- The text of an operand; JSON text is code for every literal. -/
def Operand.text : Operand → String
  | .literal v => v.compact
  | .parameter name => name
  | .temporary name => name
  | .undefined => "undefined"

/-- A variable of the blueprint, as a name in its module or as a field of
    its component. -/
structure Variable where
  name : String
  isField : Bool
  deriving DecidableEq, Repr

/-- The text that reads or assigns a variable. -/
def Variable.text (v : Variable) : String :=
  if v.isField then "this." ++ v.name else v.name

/-- What a temporary is computed from. -/
inductive Expr where
  | constant (value : Json)
  | call (helper : Helper) (arguments : List Operand)
  | random (min max : Operand)
  | abs (value : Operand)
  | concat (a b : Operand)
  | length (text : Operand)
  | contains (text search : Operand)
  | replace (text search replacement : Operand)
  | readVariable (v : Variable)
  deriving DecidableEq

namespace Expr

/-- The text of a call of a helper. -/
def callText (h : Helper) (arguments : List Operand) : String :=
  h.name ++ "(" ++ ", ".intercalate (arguments.map Operand.text) ++ ")"

/-- The text that makes a string of an operand. -/
def stringText (o : Operand) : String := "String(" ++ o.text ++ ")"

/-- The text of an expression. -/
def text : Expr → String
  | .constant v => v.compact
  | .call h arguments => callText h arguments
  | .random min max =>
    min.text ++ " + Math.random() * (" ++ max.text ++ " - " ++ min.text ++ ")"
  | .abs v => "Math.abs(" ++ v.text ++ ")"
  | .concat a b => stringText a ++ " + " ++ stringText b
  | .length t => stringText t ++ ".length"
  | .contains t s => stringText t ++ ".includes(" ++ stringText s ++ ")"
  | .replace t s r => stringText t ++ ".split(" ++ stringText s ++ ").join(" ++ stringText r ++ ")"
  | .readVariable v => v.text

/-- The operands of an expression. -/
def operands : Expr → List Operand
  | .constant _ | .readVariable _ => []
  | .call _ arguments => arguments
  | .random a b | .concat a b | .contains a b => [a, b]
  | .abs a | .length a => [a]
  | .replace a b c => [a, b, c]

/-- The helpers that an expression calls. -/
def helpers : Expr → List Helper
  | .call h _ => [h]
  | _ => []

/-- The variables that an expression reads. -/
def usedVariables : Expr → List Variable
  | .readVariable v => [v]
  | _ => []

end Expr

/-! ## Labels -/

/-- The label of a case of a switch. -/
inductive CaseLabel where
  | default
  | number (numeral : String)
  | string (value : String)
  deriving DecidableEq, Repr

namespace CaseLabel

/-- Characters without a word in front of them, if they start with it. -/
def dropWord (word cs : List Char) : List Char :=
  if word.isPrefixOf cs then cs.drop word.length else cs

/-- The label for an output: its id less a leading `case_`, as a number if
    it reads as one. -/
def ofOutput (id : String) : CaseLabel :=
  if id == "default" then .default
  else
    let value := String.ofList (dropWord "case_".toList id.toList)
    if Text.isNumber value then .number value else .string value

/-- The text of a label. -/
def text : CaseLabel → String
  | .default => "default:"
  | .number numeral => "case " ++ numeral ++ ":"
  | .string value => "case " ++ Json.quote value ++ ":"

end CaseLabel

/-! ## Statements -/

/-- A line of a routine. -/
inductive Statement where
  | blank
  | comment (text : String)
  | assign (target : String) (value : Expr)
  | assignVariable (target : Variable) (value : Operand)
  | log (value : Operand)
  | watch (label value : Operand)
  | delay (duration : Operand)
  | debugger
  | openIf (condition : Operand)
  | openFor (index : String) (count : Operand)
  | openSwitch (value : Operand)
  | openCase (label : CaseLabel)
  | leaveCase
  | openTask (name : String)
  | closeTask
  | awaitTasks (names : List String)
  | close
  | giveBack (value : Operand)
  deriving DecidableEq

namespace Statement

/-- The text of a statement. -/
def text : Statement → String
  | .blank => ""
  | .comment t => "// " ++ t
  | .assign target e => target ++ " = " ++ e.text ++ ";"
  | .assignVariable target v => target.text ++ " = " ++ v.text ++ ";"
  | .log v => Expr.callText .log [v] ++ ";"
  | .watch label v =>
    Helper.log.name ++ "(" ++ label.text ++ " + ': ' + " ++ Expr.callText .toString [v] ++ ");"
  | .delay d => "await " ++ Expr.callText .delay [d] ++ ";"
  | .debugger => "debugger;"
  | .openIf c => "if (" ++ c.text ++ ") \x7b"
  | .openFor i count =>
    "for (" ++ i ++ " = 0; " ++ i ++ " < " ++ count.text ++ "; " ++ i ++ "++) \x7b"
  | .openSwitch v => "switch (" ++ v.text ++ ") \x7b"
  | .openCase label => label.text ++ " \x7b"
  | .leaveCase => "break;"
  | .openTask name => "const " ++ name ++ " = async () => \x7b"
  | .closeTask => "\x7d;"
  | .awaitTasks names => "await Promise.all([" ++ ", ".intercalate (names.map (· ++ "()")) ++ "]);"
  | .close => "\x7d"
  | .giveBack v => "return " ++ v.text ++ ";"

/-- The operands of a statement. -/
def operands : Statement → List Operand
  | .assign _ e => e.operands
  | .assignVariable _ v | .log v | .delay v | .openIf v | .openFor _ v | .openSwitch v
  | .giveBack v => [v]
  | .watch label v => [label, v]
  | .blank | .comment _ | .debugger | .openCase _ | .leaveCase | .openTask _ | .closeTask
  | .awaitTasks _ | .close => []

/-- The helpers that a statement calls. -/
def helpers : Statement → List Helper
  | .assign _ e => e.helpers
  | .log _ => [.log]
  | .watch .. => [.log, .toString]
  | .delay _ => [.delay]
  | _ => []

/-- The variables that a statement reads or assigns. -/
def usedVariables : Statement → List Variable
  | .assign _ e => e.usedVariables
  | .assignVariable v _ => [v]
  | _ => []

/-- The temporaries and loop indices that a statement assigns. -/
def assigned : Statement → List String
  | .assign target _ => [target]
  | .openFor index _ => [index]
  | _ => []

/-- Whether a statement waits for something. -/
def awaits : Statement → Bool
  | .delay _ | .awaitTasks _ => true
  | _ => false

end Statement

end Blueprints
