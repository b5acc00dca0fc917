import Blueprints.Program.Basic

/-! # Functions

    A blueprint of the function kind compiles to one exported function.  It
    runs what follows each of its start nodes and returns the value of one
    return node at its end. -/

namespace Blueprints

/-- A blueprint as a function, before it is text. -/
structure FunctionUnit where
  routine : Routine
  parameters : List Parameter
  returnType : String
  findings : Findings

/-- Whether a function starts at a node. -/
def Context.isFunctionEntry (ctx : Context) (n : Node) : Bool :=
  match ctx.catalog.kind? n with
  | some .functionStart | some (.lifecycle .start) => true
  | _ => false

/-- The type of the value that a source brings. -/
def Source.type? : Source → Option String
  | .literal v _ => some v.typeName
  | .parameter _ type => some type
  | .temporary _ _ kind => some kind.typeName
  | .undefined => none

/-- The parameters of the function, in the order of their nodes. -/
def functionParameters (ctx : Context) : List Parameter :=
  (ctx.nodesOfKind .functionParameter).filterMap fun n =>
    (ctx.definition? n).map fun d =>
      { name := n.parameterName d
        type := n.parameterType d
        default? := (n.literal? "default_value").map Json.compact }

/-- The node whose value is returned: the first that was reached, else the
    first there is. -/
def returnNode? (ctx : Context) (r : Routine) : Option Node :=
  (r.returnNode.bind ctx.index.node?).or (ctx.nodesOfKind .functionReturn).head?

/-- Writes the return of a value at the end of a routine; its type. -/
def writeReturn (ctx : Context) (e : Emission) : String × Emission :=
  match returnNode? ctx e.routine with
  | none => ("void", e)
  | some n =>
    let count := (ctx.nodesOfKind .functionReturn).length
    let e :=
      if count > 1 then
        e.report .shapeAmbiguity n.id s!"blueprint has {count} return nodes; only '{n.id}' is used"
      else e
    match (ctx.source n "value").type? with
    | none => ("void", e)
    | some type =>
      let e := if e.routine.blocks.isEmpty Arena.root then e else e.emit Arena.root .blank
      let (value, e) := readInput ctx n "value" Arena.root (e.onPath .empty)
      (type, e.emit Arena.root (.giveBack value))

/-- The body of the function up to its return. -/
def writeFunctionBody (ctx : Context) : Emission :=
  match ctx.blueprint.nodes.filter ctx.isFunctionEntry with
  | [] =>
    ({ findings := danglingReports ctx } : Emission).emit Arena.root
      (.comment "No start node found")
  | entries => writeRoutine ctx entries (danglingReports ctx)

namespace FunctionUnit

/-- The function of a blueprint. -/
def build (ctx : Context) : FunctionUnit :=
  let (returnType, e) := writeReturn ctx (writeFunctionBody ctx)
  { routine := e.routine
    parameters := functionParameters ctx
    returnType
    findings := e.findings }

/-- The line that declares a variable of the module. -/
def declarationLine (d : Declaration) : String :=
  match d.initial? with
  | some value => "let " ++ d.name ++ ": " ++ d.type ++ " = " ++ value ++ ";"
  | none => "let " ++ d.name ++ ": " ++ d.type ++ ";"

/-- The first line of the function. -/
def signatureLine (u : FunctionUnit) (name : String) : String :=
  let parameters := ", ".intercalate (u.parameters.map Parameter.signature)
  let (keywords, type) :=
    if u.routine.isAsync then ("export async function ", "Promise<" ++ u.returnType ++ ">")
    else ("export function ", u.returnType)
  keywords ++ name ++ "(" ++ parameters ++ "): " ++ type ++ " \x7b"

/-- The lines of the unit. -/
def lines (u : FunctionUnit) (b : Blueprint) (options : Options) (time : String) : List String :=
  headerLines b options time
  ++ helperLines options [] u.findings.helpers
  ++ paragraph ((variableDeclarations b u.findings.variableNames).map declarationLine)
  ++ [u.signatureLine (unitName b options)]
  ++ u.routine.lines options.indentUnit 1
  ++ ["\x7d"]

/-- What is known of the function. -/
def analysis (u : FunctionUnit) : Analysis where
  parameters := u.parameters
  returnType := u.returnType
  helpers := Helper.inOrder u.findings.helpers
  isAsync := u.routine.isAsync

end FunctionUnit

end Blueprints
